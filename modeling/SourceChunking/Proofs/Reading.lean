import Mathlib.Data.List.Nodup
import SourceChunking.Validation

/-! # What readers give

A reading that succeeds has read every part. From this follows what a reader ensures of its value,
field by field. In the other direction a reader recovers a value if it gives it back from what was
written of it, with the fields left out that hold nothing: an optional field is then missing and
read as nothing, and every other field is still there.
-/
namespace SourceChunking

theorem Text.ofString_inj {s s' : String} : Text.ofString s = Text.ofString s' ↔ s = s' := by
  rw [Text.ofString, Text.ofString, List.map_inj_right (fun _ _ => CodePoint.scalar.inj)]
  exact String.toList_inj

namespace Checked
variable {α β : Type}

theorem map_eq_ok {f : α → β} {x : Checked α} {b : β} :
    x.map f = .ok b ↔ ∃ a, x = .ok a ∧ f a = b := by
  cases x with
  | ok a => simp [map]
  | refused issues => simp [map]

theorem andThen_eq_ok {f : α → Checked β} {x : Checked α} {b : β} :
    x.andThen f = .ok b ↔ ∃ a, x = .ok a ∧ f a = .ok b := by
  cases x with
  | ok a => simp [andThen]
  | refused issues => simp [andThen]

theorem under_eq_ok {step : Step} {x : Checked α} {a : α} : x.under step = .ok a ↔ x = .ok a := by
  cases x with
  | ok b => simp [under]
  | refused issues => simp [under]

/-- If there is a value, it has the property. -/
def Holds (P : α → Prop) (x : Checked α) : Prop := ∀ a, x = .ok a → P a

theorem holds_ok {P : α → Prop} {a : α} (h : P a) : (Checked.ok a).Holds P := by
  intro b hb
  cases hb
  exact h

theorem holds_refused {P : α → Prop} (issues : List Issue) : (Checked.refused issues).Holds P := by
  intro a ha
  cases ha

theorem Holds.under {P : α → Prop} {x : Checked α} (h : x.Holds P) (step : Step) :
    (x.under step).Holds P := by
  intro a ha
  exact h a (under_eq_ok.mp ha)

theorem Holds.map {P : β → Prop} {f : α → β} {x : Checked α} (h : x.Holds fun a => P (f a)) :
    (f <$> x).Holds P := by
  intro b hb
  obtain ⟨a, ha, rfl⟩ := map_eq_ok.mp hb
  exact h a ha

theorem Holds.andThen {P : β → Prop} {Q : α → Prop} {f : α → Checked β} {x : Checked α}
    (hx : x.Holds Q) (hf : ∀ a, Q a → (f a).Holds P) : (x.andThen f).Holds P := by
  intro b hb
  obtain ⟨a, ha, hb⟩ := andThen_eq_ok.mp hb
  exact hf a (hx a ha) b hb

theorem Holds.seq {P : β → Prop} {Q : α → Prop} {f : Checked (α → β)} {x : Checked α}
    (hx : x.Holds Q) (hf : f.Holds fun g => ∀ a, Q a → P (g a)) : (f <*> x).Holds P := by
  intro b hb
  cases f with
  | refused issues => cases x <;> cases hb
  | ok g =>
    cases x with
    | refused issues => cases hb
    | ok a =>
      cases hb
      exact hf g rfl a (hx a rfl)

/-- A part on which nothing depends. -/
theorem Holds.seq_any {P : β → Prop} {f : Checked (α → β)} {x : Checked α}
    (hf : f.Holds fun g => ∀ a, P (g a)) : (f <*> x).Holds P :=
  Holds.seq (Q := fun _ => True) (fun _ _ => trivial) fun g hg a _ => hf g hg a

end Checked

namespace Value
variable {α : Type} {P : α → Prop} {read : Value → Checked α} {write : α → Value}
  {fields : List (String × Value)} {name : String} {a : α}

theorem readAtLeast_int (bound i : Int) : readAtLeast bound (.int i) =
    if bound ≤ i then .ok i else Checked.refuse (.below bound) (.int i) := rfl

/-! ## What is ensured -/

def Ensures (P : α → Prop) (read : Value → Checked α) : Prop := ∀ v, (read v).Holds P

theorem ensures_readAtLeast (bound : Int) : Ensures (bound ≤ ·) (readAtLeast bound) := by
  intro v i h
  obtain ⟨j, _, hj⟩ := Checked.andThen_eq_ok.mp h
  split_ifs at hj with hle
  · cases hj
    exact hle
  · cases hj

theorem Ensures.required (h : Ensures P read) (fields : List (String × Value)) (name : String) :
    (required fields name read).Holds P := by
  unfold Value.required
  split
  · next v _ => exact (h v).under (.key name)
  · exact Checked.holds_refused _

theorem Ensures.defaulted (h : Ensures P read) {default : α} (hd : P default)
    (fields : List (String × Value)) (name : String) :
    (defaulted fields name default read).Holds P := by
  unfold Value.defaulted
  split
  · next v _ => exact (h v).under (.key name)
  · exact Checked.holds_ok hd

theorem Ensures.readOptional (h : Ensures P read) :
    Ensures (fun o => ∀ a ∈ o, P a) (readOptional read) := by
  intro v
  unfold Value.readOptional
  split
  · exact Checked.holds_ok (by simp)
  · refine Checked.Holds.map ?_
    intro a ha
    simpa using h _ a ha

theorem Ensures.optional (h : Ensures P read) (fields : List (String × Value)) (name : String) :
    (optional fields name read).Holds fun o => ∀ a ∈ o, P a :=
  h.readOptional.defaulted (by simp) fields name

theorem Ensures.readItems (h : Ensures P read) (i : Nat) (vs : List Value) :
    (readItems read i vs).Holds fun as => ∀ a ∈ as, P a := by
  induction vs generalizing i with
  | nil => exact Checked.holds_ok (by simp)
  | cons v rest ih =>
    change (List.cons <$> (read v).under (.item i) <*> Value.readItems read (i + 1) rest).Holds _
    refine Checked.Holds.seq (ih (i + 1)) (Checked.Holds.map ?_)
    intro a ha others hothers
    exact List.forall_mem_cons.mpr ⟨(h v).under (.item i) a ha, hothers⟩

theorem Ensures.readList (h : Ensures P read) :
    Ensures (fun as => ∀ a ∈ as, P a) (readList read) := by
  intro v
  unfold Value.readList
  split
  · exact h.readItems 0 _
  · exact Checked.holds_refused _

theorem ensures_readRecord {record : String} {read : List (String × Value) → Checked α}
    (h : ∀ fields, (read fields).Holds P) : Ensures P (readRecord record read) := by
  intro v
  unfold Value.readRecord
  split
  · exact h _
  · exact Checked.holds_refused _

/-! ## What is recovered -/

/-- A reader gives a value back from what was written of it. Nothing but an absent value is written
as null. -/
def Recovers (read : Value → Checked α) (write : α → Value) (a : α) : Prop :=
  write a ≠ .null ∧ read (write a).withoutNulls = .ok a

/-- What is left of the value of a field. -/
def present : Value → Option Value
  | .null => none
  | v => some v.withoutNulls

theorem present_of_ne {v : Value} (h : v ≠ .null) : present v = some v.withoutNulls := by
  cases v with
  | null => exact absurd rfl h
  | _ => rfl

theorem withoutNulls_ne_null {v : Value} (h : v ≠ .null) : v.withoutNulls ≠ .null := by
  cases v with
  | null => exact absurd rfl h
  | list items => simp [withoutNulls]
  | object fields => simp [withoutNulls]
  | _ => exact h

theorem fieldsWithoutNulls_cons (key : String) (v : Value) (rest : List (String × Value)) :
    fieldsWithoutNulls ((key, v) :: rest) =
      ((present v).map (key, ·)).toList ++ fieldsWithoutNulls rest := by
  cases v <;> simp [fieldsWithoutNulls, present]

theorem get?_eq_none (h : name ∉ fields.map Prod.fst) : get? name fields = none := by
  induction fields with
  | nil => rfl
  | cons field rest ih =>
    rw [List.map_cons, List.mem_cons, not_or] at h
    rw [get?, if_neg (Ne.symm h.1), ih h.2]

theorem get?_fieldsWithoutNulls (h : (fields.map Prod.fst).Nodup) (name : String) :
    get? name (fieldsWithoutNulls fields) = (get? name fields).bind present := by
  induction fields with
  | nil => rfl
  | cons field rest ih =>
    obtain ⟨key, v⟩ := field
    obtain ⟨hkey, hrest⟩ := List.nodup_cons.mp h
    rw [fieldsWithoutNulls_cons, get?]
    by_cases he : key = name
    · subst he
      rw [if_pos rfl, Option.bind_some]
      cases hv : present v with
      | some w => simp [get?]
      | none =>
        rw [Option.map_none, Option.toList_none, List.nil_append, ih hrest, get?_eq_none hkey,
          Option.bind_none]
    · rw [if_neg he, ← ih hrest]
      cases present v with
      | some w => simp [get?, he]
      | none => rfl

/-- The fields of an object. -/
def entries : Value → List (String × Value)
  | .object fields => fields
  | _ => []

theorem readRecord_withoutNulls (record : String) (read : List (String × Value) → Checked α)
    {v : Value} (h : v = .object v.entries) :
    readRecord record read v.withoutNulls = read (fieldsWithoutNulls v.entries) := by
  rw [h, withoutNulls]
  rfl

section
variable (hkeys : (fields.map Prod.fst).Nodup) (name : String)
include hkeys

theorem Recovers.required (h : Recovers read write a) (hget : get? name fields = some (write a)) :
    required (fieldsWithoutNulls fields) name read = .ok a := by
  rw [Value.required, get?_fieldsWithoutNulls hkeys, hget, Option.bind_some, present_of_ne h.1]
  exact Checked.under_eq_ok.mpr h.2

theorem Recovers.defaulted (h : Recovers read write a) (hget : get? name fields = some (write a))
    (default : α) : defaulted (fieldsWithoutNulls fields) name default read = .ok a := by
  rw [Value.defaulted, get?_fieldsWithoutNulls hkeys, hget, Option.bind_some, present_of_ne h.1]
  exact Checked.under_eq_ok.mpr h.2

theorem Recovers.optional {o : Option α} (h : ∀ a ∈ o, Recovers read write a)
    (hget : get? name fields = some (ofOption write o)) :
    optional (fieldsWithoutNulls fields) name read = .ok o := by
  rw [Value.optional, Value.defaulted, get?_fieldsWithoutNulls hkeys, hget, Option.bind_some]
  cases o with
  | none => rfl
  | some a =>
    obtain ⟨hne, hread⟩ := h a rfl
    rw [ofOption, present_of_ne hne]
    apply Checked.under_eq_ok.mpr
    rw [readOptional]
    · exact Checked.map_eq_ok.mpr ⟨a, hread, rfl⟩
    · exact withoutNulls_ne_null hne

end

theorem itemsWithoutNulls_eq_map (items : List Value) :
    itemsWithoutNulls items = items.map withoutNulls := by
  induction items with
  | nil => rfl
  | cons v rest ih => rw [itemsWithoutNulls, ih, List.map_cons]

theorem readItems_withoutNulls {as : List α} (h : ∀ a ∈ as, Recovers read write a) (i : Nat) :
    readItems read i (itemsWithoutNulls (as.map write)) = .ok as := by
  induction as generalizing i with
  | nil => rfl
  | cons a rest ih =>
    obtain ⟨ha, hrest⟩ := List.forall_mem_cons.mp h
    rw [List.map_cons, itemsWithoutNulls, readItems, ha.2, ih hrest]
    rfl

theorem recovers_list {as : List α} (h : ∀ a ∈ as, Recovers read write a) :
    Recovers (readList read) (fun as => .list (as.map write)) as := by
  refine ⟨by simp, ?_⟩
  rw [withoutNulls]
  exact readItems_withoutNulls h 0

theorem recovers_text (t : Text) : Recovers readText .text t := ⟨by simp, rfl⟩

theorem recovers_boolean (b : Bool) : Recovers readBoolean .bool b := ⟨by simp, rfl⟩

theorem recovers_integer {bound i : Int} (h : bound ≤ i) : Recovers (readAtLeast bound) .int i := by
  refine ⟨by simp, ?_⟩
  change readAtLeast bound (.int i) = .ok i
  rw [readAtLeast_int, if_pos h]

theorem recovers_choice {options : List α} {label : α → String}
    (hlabels : (options.map label).Nodup) (ha : a ∈ options) :
    Recovers (readChoice (options.map fun o => (label o, o))) (fun o => ofString (label o)) a := by
  have hfind : ((options.map fun o => (label o, o)).find? fun o =>
      Text.ofString o.1 == Text.ofString (label a)) = some (label a, a) := by
    induction options with
    | nil => cases ha
    | cons o rest ih =>
      rw [List.map_cons, List.find?_cons]
      by_cases he : label o = label a
      · obtain rfl : o = a := List.inj_on_of_nodup_map hlabels (by simp) ha he
        simp
      · have hne : (Text.ofString (label o) == Text.ofString (label a)) = false := by
          simpa [Text.ofString_inj] using he
        have hrest : a ∈ rest := by
          rcases List.mem_cons.mp ha with rfl | hrest
          · exact absurd rfl he
          · exact hrest
        rw [hne]
        exact ih (List.nodup_cons.mp hlabels).2 hrest
  refine ⟨by simp [ofString], ?_⟩
  simp only [ofString, withoutNulls, readChoice, hfind]

end Value
end SourceChunking
