import SourceChunking.Proofs.Chunking
import SourceChunking.Proofs.Reading
import SourceChunking.Settings.Session

/-! # Settings over whole sessions

Settings are checked whenever they are read and whenever one of their fields changes. So as long as
only fields are addressed, every cell holds settings within their bounds and nothing else. The cell of
a service is new when the service is opened and is never given away, so nobody but this service
changes it, and a service changes no other cell. Callers may well share a cell with each other and with
the shared settings.
-/
namespace SourceChunking
open Value

/-! ## Reading and changing settings -/

namespace Settings

theorem valid_standard : standard.Valid := by decide

theorem ensures_read : Ensures Valid read := by
  apply ensures_readRecord
  intro fields
  refine Checked.Holds.seq
    ((ensures_readAtLeast 1).defaulted valid_standard.2.2 fields "max_workers") ?_
  refine Checked.Holds.seq_any ?_
  refine Checked.Holds.seq
    ((ensures_readAtLeast 0).defaulted valid_standard.2.1 fields "overlap_size") ?_
  refine Checked.Holds.map ?_
  intro size hsize overlap hoverlap extract workers hworkers
  exact ⟨(ensures_readAtLeast 1).defaulted valid_standard.1 fields "max_chunk_size" size hsize,
    hoverlap, hworkers⟩

theorem ensures_readShared : Ensures Valid readShared := by
  apply ensures_readRecord
  intro fields
  exact ensures_read.defaulted valid_standard fields "chunking"

theorem holds_assign {c : Settings} (hc : c.Valid) (field : String) (v : Value) :
    (c.assign field v).Holds Valid := by
  unfold assign
  split_ifs
  · refine Checked.Holds.map ?_
    exact fun n hn => ⟨(ensures_readAtLeast 1 v).under _ n hn, hc.2⟩
  · refine Checked.Holds.map ?_
    exact fun n hn => ⟨hc.1, (ensures_readAtLeast 0 v).under _ n hn, hc.2.2⟩
  · refine Checked.Holds.map ?_
    exact fun _ _ => hc
  · refine Checked.Holds.map ?_
    exact fun n hn => ⟨hc.1, hc.2.1, (ensures_readAtLeast 1 v).under _ n hn⟩
  · exact Checked.holds_refused _

end Settings

namespace SettingsRecord

/-- The record holds valid settings and nothing else. -/
def Sound (r : SettingsRecord) : Prop := ∃ c : Settings, c.Valid ∧ r = .ofSettings c

theorem sound_ofSettings {c : Settings} (h : c.Valid) : (ofSettings c).Sound := ⟨c, h, rfl⟩

/-- Where nothing else is kept, a field of the record is changed as one of its settings is. -/
theorem assign_ofSettings (c : Settings) {name : String} (hname : isPrivate name = false) {v : Value}
    (hfree : reservedFault? name v = none) :
    (ofSettings c).assign name v = (c.assign name v).map ofSettings := by
  have hhandler : (ofSettings c).handlerFault? name = none := by
    simp [handlerFault?, override?, ofSettings]
  have hcheck : (ofSettings c).checkFault? = none := rfl
  simp only [assign, hhandler, hfree, hcheck, hname]
  cases hd : c.assign name v with
  | refused issues => simp [ofSettings, hd, Checked.andThen, Checked.map]
  | ok d => simp [ofSettings, hd, Checked.andThen, Checked.map, withField]

theorem holds_assign {r : SettingsRecord} (hr : r.Sound) {name : String}
    (hname : isPrivate name = false) (v : Value) : (r.assign name v).Holds Sound := by
  obtain ⟨c, hc, rfl⟩ := hr
  cases hreserved : reservedFault? name v with
  | some fault =>
    unfold assign
    rw [hreserved]
    split
    · exact Checked.holds_refused _
    · exact Checked.holds_refused _
    · contradiction
  | none =>
    rw [assign_ofSettings c hname hreserved]
    refine Checked.Holds.map ?_
    exact fun d hd => sound_ofSettings (Settings.holds_assign hc name v d hd)

end SettingsRecord

/-! ## What a step does -/

namespace SettingsStep

/-- Whether the step keeps to names that may be fields. -/
def onFields : SettingsStep → Bool
  | assignShared field _ => !SettingsRecord.isPrivate field
  | assignHeld _ field _ => !SettingsRecord.isPrivate field
  | assignService _ field _ => !SettingsRecord.isPrivate field
  | _ => true

/-- Whether the step opens or changes a service. -/
def ofServices : SettingsStep → Bool
  | openService _ => true
  | assignService _ _ _ => true
  | _ => false

def ofService (i : Nat) : SettingsStep → Bool
  | assignService j _ _ => j == i
  | _ => false

end SettingsStep

namespace Session

/-- The session in which the shared configuration has been asked for. -/
def asked (s : Session) : Session :=
  match s.sharedCell with
  | some _ => s
  | none => (s.allocate (.ofSettings .standard)).share s.cells.length

def askedCell (s : Session) : Nat := s.sharedCell.getD s.cells.length

/-- How a step can end. Only asking for the shared configuration comes before a refusal. -/
inductive Outcome (s : Session) : SettingsStep → Except (List Issue) Unit × Session → Prop
  | refused {step : SettingsStep} {issues : List Issue} : Outcome s step (.error issues, s)
  | refusedShared {field : String} {v : Value} {issues : List Issue} :
      Outcome s (.assignShared field v) (.error issues, s.asked)
  | idle {step : SettingsStep} : Outcome s step (.ok (), s)
  | made {data : Value} {c : Settings} (h : Settings.read data = .ok c) :
      Outcome s (.make data) (.ok (), (s.allocate (.ofSettings c)).hold s.cells.length)
  | set {data : Value} {c : Settings} (h : Settings.readShared data = .ok c) :
      Outcome s (.setShared data) (.ok (), (s.allocate (.ofSettings c)).share s.cells.length)
  | shared {k cell : Nat} (h : s.held[k]? = some cell) :
      Outcome s (.share k) (.ok (), s.share cell)
  | reset : Outcome s .resetShared (.ok (), { s with sharedCell := none })
  | held : Outcome s .holdShared (.ok (), s.asked.hold s.askedCell)
  | assignedShared {field : String} {v : Value} {r : SettingsRecord}
      (h : (s.asked.record s.askedCell).assign field v = .ok r) :
      Outcome s (.assignShared field v) (.ok (), s.asked.write s.askedCell r)
  | assignedHeld {k cell : Nat} {field : String} {v : Value} {r : SettingsRecord}
      (h : s.held[k]? = some cell) (hr : (s.record cell).assign field v = .ok r) :
      Outcome s (.assignHeld k field v) (.ok (), s.write cell r)
  | openedShared : Outcome s (.openService none)
      (.ok (), (s.asked.allocate (s.asked.record s.askedCell)).serve s.asked.cells.length)
  | opened {k cell : Nat} (h : s.held[k]? = some cell) :
      Outcome s (.openService (some k))
        (.ok (), (s.allocate (s.record cell)).serve s.cells.length)
  | assignedService {i cell : Nat} {field : String} {v : Value} {r : SettingsRecord}
      (h : s.services[i]? = some cell) (hr : (s.record cell).assign field v = .ok r) :
      Outcome s (.assignService i field v) (.ok (), s.write cell r)

end Session

namespace SettingsAction
variable {α β : Type}

theorem run_bind (m : SettingsAction α) (f : α → SettingsAction β) (s : Session) :
    (m >>= f).run.run s =
      match m.run.run s with
      | (.ok a, t) => (f a).run.run t
      | (.error issues, t) => (.error issues, t) := by
  rw [ExceptT.run_bind, StateT.run_bind]
  rcases m.run.run s with ⟨issues | a, t⟩ <;> rfl

theorem run_get (s : Session) : (get : SettingsAction Session).run.run s = (.ok s, s) := rfl

theorem run_modify (f : Session → Session) (s : Session) :
    (modify f : SettingsAction PUnit).run.run s = (.ok (), f s) := rfl

theorem run_accept (x : Checked α) (s : Session) :
    (accept x).run.run s =
      match x with
      | .ok a => (.ok a, s)
      | .refused issues => (.error issues, s) := by
  cases x <;> rfl

theorem run_askShared (s : Session) : askShared.run.run s = (.ok s.askedCell, s.asked) := by
  cases s with
  | mk cells sharedCell held services => cases sharedCell <;> rfl

theorem run_assign (field : String) (v : Value) (cell : Nat) (s : Session) :
    (assign field v cell).run.run s =
      match (s.record cell).assign field v with
      | .ok r => (.ok (), s.write cell r)
      | .refused issues => (.error issues, s) := by
  simp only [assign, run_bind, run_get, run_accept]
  cases (s.record cell).assign field v <;> rfl

theorem run_openOn (cell : Nat) (s : Session) :
    (openOn cell).run.run s = (.ok (), (s.allocate (s.record cell)).serve s.cells.length) := rfl

theorem run_withCell (cell? : Session → Option Nat) (act : Nat → SettingsAction Unit)
    (s : Session) :
    (withCell cell? act).run.run s =
      match cell? s with
      | some cell => (act cell).run.run s
      | none => (.ok (), s) := by
  simp only [withCell, run_bind, run_get]
  cases cell? s <;> rfl

end SettingsAction

namespace Session
open SettingsAction

theorem outcome_apply (s : Session) (step : SettingsStep) : s.Outcome step (s.apply step) := by
  cases step with
  | make data =>
    simp only [apply, SettingsStep.perform, run_bind, run_accept]
    cases h : Settings.read data with
    | ok c => exact .made h
    | refused issues => exact .refused
  | setShared data =>
    simp only [apply, SettingsStep.perform, run_bind, run_accept]
    cases h : Settings.readShared data with
    | ok c => exact .set h
    | refused issues => exact .refused
  | share k =>
    simp only [apply, SettingsStep.perform, run_withCell, run_modify]
    cases h : s.held[k]? with
    | some cell => exact .shared h
    | none => exact .idle
  | resetShared => exact .reset
  | holdShared =>
    simp only [apply, SettingsStep.perform, run_bind, run_askShared, run_modify]
    exact .held
  | assignShared field v =>
    simp only [apply, SettingsStep.perform, run_bind, run_askShared, run_assign]
    cases h : (s.asked.record s.askedCell).assign field v with
    | ok r => exact .assignedShared h
    | refused issues => exact .refusedShared
  | assignHeld k field v =>
    simp only [apply, SettingsStep.perform, run_withCell, run_assign]
    cases h : s.held[k]? with
    | none => exact .idle
    | some cell =>
      cases hr : (s.record cell).assign field v with
      | ok r => simpa [hr] using .assignedHeld h hr
      | refused issues => simpa [hr] using .refused
  | openService config =>
    cases config with
    | none =>
      simp only [apply, SettingsStep.perform, run_bind, run_askShared, run_openOn]
      exact .openedShared
    | some k =>
      simp only [apply, SettingsStep.perform, run_withCell, run_openOn]
      cases h : s.held[k]? with
      | none => exact .idle
      | some cell => exact .opened h
  | assignService i field v =>
    simp only [apply, SettingsStep.perform, run_withCell, run_assign]
    cases h : s.services[i]? with
    | none => exact .idle
    | some cell =>
      cases hr : (s.record cell).assign field v with
      | ok r => simpa [hr] using .assignedService h hr
      | refused issues => simpa [hr] using .refused

/-! ## Valid settings -/

variable {s : Session} {step : SettingsStep} {i cell : Nat} {r : SettingsRecord}

/-- Every cell holds valid settings and nothing else. -/
def Sound (s : Session) : Prop := ∀ r ∈ s.cells, r.Sound

theorem sound_fresh : fresh.Sound := List.forall_mem_nil _

theorem Sound.record (h : s.Sound) (cell : Nat) : (s.record cell).Sound := by
  unfold Session.record
  cases hr : s.cells[cell]? with
  | none => exact SettingsRecord.sound_ofSettings Settings.valid_standard
  | some r => exact h r (List.mem_of_getElem? hr)

theorem Sound.allocate (h : s.Sound) (hr : r.Sound) : (s.allocate r).Sound := by
  intro q hq
  rcases List.mem_append.mp hq with hq | hq
  · exact h q hq
  · exact List.mem_singleton.mp hq ▸ hr

theorem Sound.write (h : s.Sound) (cell : Nat) (hr : r.Sound) : (s.write cell r).Sound := by
  intro q hq
  rcases List.mem_or_eq_of_mem_set hq with hq | rfl
  · exact h q hq
  · exact hr

theorem Sound.asked (h : s.Sound) : s.asked.Sound := by
  unfold Session.asked
  split
  · exact h
  · exact h.allocate (SettingsRecord.sound_ofSettings Settings.valid_standard)

theorem Sound.assign (h : s.Sound) {field : String} {v : Value}
    (hfield : SettingsRecord.isPrivate field = false)
    (hr : (s.record cell).assign field v = .ok r) : (s.write cell r).Sound :=
  h.write cell (SettingsRecord.holds_assign (h.record cell) hfield v r hr)

theorem Sound.after (h : s.Sound) (hstep : step.onFields = true) : (s.after step).Sound := by
  have houtcome := outcome_apply s step
  unfold Session.after
  generalize s.apply step = result at houtcome
  cases houtcome with
  | refused => exact h
  | refusedShared => exact h.asked
  | idle => exact h
  | made hc =>
    exact h.allocate (SettingsRecord.sound_ofSettings (Settings.ensures_read _ _ hc))
  | set hc =>
    exact h.allocate (SettingsRecord.sound_ofSettings (Settings.ensures_readShared _ _ hc))
  | shared => exact h
  | reset => exact h
  | held => exact h.asked
  | assignedShared hr => exact h.asked.assign (by simpa [SettingsStep.onFields] using hstep) hr
  | assignedHeld _ hr => exact h.assign (by simpa [SettingsStep.onFields] using hstep) hr
  | openedShared => exact h.asked.allocate (h.asked.record _)
  | opened => exact h.allocate (h.record _)
  | assignedService _ hr => exact h.assign (by simpa [SettingsStep.onFields] using hstep) hr

theorem Sound.run (h : s.Sound) {steps : List SettingsStep}
    (hsteps : ∀ step ∈ steps, step.onFields = true) : (steps.foldl Session.after s).Sound := by
  induction steps generalizing s with
  | nil => exact h
  | cons step rest ih =>
    obtain ⟨hstep, hrest⟩ := List.forall_mem_cons.mp hsteps
    exact ih (h.after hstep) hrest

theorem Sound.valid_service (h : s.Sound) (i : Nat) : (s.service i).Valid := by
  have hrecord : (s.serviceRecord i).Sound := by
    unfold serviceRecord sharedRecord
    split
    · exact h.record _
    · split
      · exact h.record _
      · exact SettingsRecord.sound_ofSettings Settings.valid_standard
  obtain ⟨c, hc, he⟩ := hrecord
  rw [service, he]
  exact hc

/-! ## Cells of their own -/

/-- The cells that can be reached from outside: the shared one and those that callers hold. -/
def reachable (s : Session) : List Nat := s.sharedCell.toList ++ s.held

/-- Each service has a cell of its own, which cannot be reached from outside. -/
structure Apart (s : Session) : Prop where
  outside : ∀ cell ∈ s.reachable, cell < s.cells.length ∧ cell ∉ s.services
  exist : ∀ cell ∈ s.services, cell < s.cells.length
  distinct : s.services.Nodup

theorem apart_fresh : fresh.Apart := by
  refine ⟨?_, ?_, List.nodup_nil⟩ <;> simp [fresh, reachable]

namespace Apart
variable (h : s.Apart)
include h

theorem new_notMem_services : s.cells.length ∉ s.services := fun hmem =>
  Nat.lt_irrefl _ (h.exist _ hmem)

theorem new_notMem_reachable : s.cells.length ∉ s.reachable := fun hmem =>
  Nat.lt_irrefl _ (h.outside _ hmem).1

theorem allocate (r : SettingsRecord) : (s.allocate r).Apart := by
  have hlength : (s.allocate r).cells.length = s.cells.length + 1 := by simp [Session.allocate]
  refine ⟨fun cell hcell => ?_, fun cell hcell => ?_, h.distinct⟩
  · have := h.outside cell hcell
    exact ⟨by omega, this.2⟩
  · have := h.exist cell hcell
    omega

theorem write (cell : Nat) (r : SettingsRecord) : (s.write cell r).Apart := by
  have hlength : (s.write cell r).cells.length = s.cells.length := List.length_set
  refine ⟨fun cell hcell => ?_, fun cell hcell => ?_, h.distinct⟩
  · exact hlength ▸ h.outside cell hcell
  · exact hlength ▸ h.exist cell hcell

theorem share (hlt : cell < s.cells.length) (hcell : cell ∉ s.services) :
    (s.share cell).Apart := by
  refine ⟨?_, h.exist, h.distinct⟩
  intro other hother
  rcases List.mem_cons.mp hother with rfl | hheld
  · exact ⟨hlt, hcell⟩
  · exact h.outside other (List.mem_append_right _ hheld)

theorem hold (hlt : cell < s.cells.length) (hcell : cell ∉ s.services) : (s.hold cell).Apart := by
  refine ⟨?_, h.exist, h.distinct⟩
  intro other hother
  change other ∈ s.sharedCell.toList ++ (s.held ++ [cell]) at hother
  rw [← List.append_assoc] at hother
  rcases List.mem_append.mp hother with hother | hother
  · exact h.outside other hother
  · rw [List.mem_singleton.mp hother]
    exact ⟨hlt, hcell⟩

theorem serve (hlt : cell < s.cells.length) (hcell : cell ∉ s.services)
    (hreach : cell ∉ s.reachable) : (s.serve cell).Apart := by
  refine ⟨fun other hother => ⟨(h.outside other hother).1, ?_⟩, ?_, ?_⟩
  · change other ∉ s.services ++ [cell]
    rintro hmem
    rcases List.mem_append.mp hmem with hmem | hmem
    · exact (h.outside other hother).2 hmem
    · exact hreach (List.mem_singleton.mp hmem ▸ hother)
  · change ∀ other ∈ s.services ++ [cell], other < s.cells.length
    simpa [or_imp, forall_and] using ⟨h.exist, hlt⟩
  · exact List.nodup_append.mpr ⟨h.distinct, List.nodup_singleton cell,
      fun a ha b hb => by rintro rfl; exact hcell (List.mem_singleton.mp hb ▸ ha)⟩

/-- A service is opened on a cell that was not there before. -/
theorem openCopy (r : SettingsRecord) : ((s.allocate r).serve s.cells.length).Apart := by
  refine (h.allocate r).serve ?_ h.new_notMem_services h.new_notMem_reachable
  simp [Session.allocate]

theorem asked : s.asked.Apart := by
  unfold Session.asked
  split
  · exact h
  · refine (h.allocate _).share ?_ h.new_notMem_services
    simp [Session.allocate]

end Apart

theorem askedCell_mem_reachable (s : Session) : s.askedCell ∈ s.asked.reachable := by
  cases s with
  | mk cells sharedCell held services => cases sharedCell <;> exact List.mem_cons_self

theorem mem_reachable_of_held {k : Nat} (h : s.held[k]? = some cell) : cell ∈ s.reachable :=
  List.mem_append_right _ (List.mem_of_getElem? h)

theorem Apart.after (h : s.Apart) (step : SettingsStep) : (s.after step).Apart := by
  have houtcome := outcome_apply s step
  unfold Session.after
  generalize s.apply step = result at houtcome
  cases houtcome with
  | refused => exact h
  | refusedShared => exact h.asked
  | idle => exact h
  | made =>
    exact (h.allocate _).hold (by simp [Session.allocate]) h.new_notMem_services
  | set =>
    exact (h.allocate _).share (by simp [Session.allocate]) h.new_notMem_services
  | shared hheld =>
    obtain ⟨hlt, hcell⟩ := h.outside _ (mem_reachable_of_held hheld)
    exact h.share hlt hcell
  | reset =>
    exact ⟨fun cell hcell => h.outside cell (List.mem_append_right _ hcell), h.exist, h.distinct⟩
  | held =>
    obtain ⟨hlt, hcell⟩ := h.asked.outside _ (askedCell_mem_reachable s)
    exact h.asked.hold hlt hcell
  | assignedShared => exact h.asked.write _ _
  | assignedHeld => exact h.write _ _
  | openedShared => exact h.asked.openCopy _
  | opened => exact h.openCopy _
  | assignedService => exact h.write _ _

theorem Apart.run (h : s.Apart) (steps : List SettingsStep) :
    (steps.foldl Session.after s).Apart := by
  induction steps generalizing s with
  | nil => exact h
  | cons step rest ih => exact ih (h.after step)

/-! ## What stays as it was -/

theorem asked_eq_or (s : Session) :
    s.asked = s ∨ s.sharedCell = none ∧
      s.asked = (s.allocate (.ofSettings .standard)).share s.cells.length := by
  unfold asked
  split
  · exact Or.inl rfl
  · next hnone => exact Or.inr ⟨hnone, rfl⟩

theorem held_asked (s : Session) : s.asked.held = s.held := by
  rcases s.asked_eq_or with he | ⟨_, he⟩
  · rw [he]
  · rw [he]
    rfl

theorem services_asked (s : Session) : s.asked.services = s.services := by
  rcases s.asked_eq_or with he | ⟨_, he⟩
  · rw [he]
  · rw [he]
    rfl

theorem cells_asked (s : Session) : s.cells <+: s.asked.cells := by
  rcases s.asked_eq_or with he | ⟨_, he⟩
  · rw [he]
  · rw [he]
    exact List.prefix_append _ _

theorem sharedRecord_asked (s : Session) : s.asked.sharedRecord = s.sharedRecord := by
  rcases s.asked_eq_or with he | ⟨hnone, he⟩
  · rw [he]
  · simp [he, sharedRecord, hnone, share, allocate, record]

theorem mem_sharedCell_asked (s : Session) : ∀ cell ∈ s.sharedCell, cell ∈ s.asked.sharedCell := by
  intro cell hcell
  rcases s.asked_eq_or with he | ⟨hnone, _⟩
  · rwa [he]
  · rw [hnone] at hcell
    cases hcell

/-- No configuration is another one or has other contents. The shared one may have been made. -/
structure Unchanged (s t : Session) : Prop where
  sharedCell : ∀ cell ∈ s.sharedCell, cell ∈ t.sharedCell
  shared : t.sharedRecord = s.sharedRecord
  held : t.held = s.held
  services : t.services = s.services
  cells : s.cells <+: t.cells

theorem unchanged_of_refused {issues : List Issue} (h : (s.apply step).1 = .error issues) :
    s.Unchanged (s.after step) := by
  have houtcome := outcome_apply s step
  unfold Session.after
  generalize s.apply step = result at houtcome h
  cases houtcome with
  | refused => exact ⟨fun _ => id, rfl, rfl, rfl, List.prefix_rfl⟩
  | refusedShared =>
    exact ⟨mem_sharedCell_asked s, sharedRecord_asked s, held_asked s, services_asked s,
      cells_asked s⟩
  | _ => cases h

/-- The cells that a step writes to. -/
def targets (s : Session) : SettingsStep → List Nat
  | .assignShared _ _ => s.sharedCell.toList
  | .assignHeld k _ _ => (s.held[k]?).toList
  | .assignService i _ _ => (s.services[i]?).toList
  | _ => []

theorem getElem?_of_prefix {α : Type} {xs ys : List α} (h : xs <+: ys) {k : Nat}
    (hk : k < xs.length) : ys[k]? = xs[k]? := by
  obtain ⟨zs, rfl⟩ := h
  exact List.getElem?_append_left hk

theorem getElem?_cells_after (hlt : cell < s.cells.length) (hcell : cell ∉ s.targets step) :
    (s.after step).cells[cell]? = s.cells[cell]? := by
  have hasked := getElem?_of_prefix s.cells_asked hlt
  have houtcome := outcome_apply s step
  unfold Session.after
  generalize s.apply step = result at houtcome
  cases houtcome with
  | refused => rfl
  | refusedShared => exact hasked
  | idle => rfl
  | made => exact List.getElem?_append_left hlt
  | set => exact List.getElem?_append_left hlt
  | shared => rfl
  | reset => rfl
  | held => exact hasked
  | assignedShared =>
    have hne : s.askedCell ≠ cell := by
      unfold askedCell
      cases hshared : s.sharedCell with
      | none => exact fun he => Nat.lt_irrefl _ (he ▸ hlt)
      | some c =>
        rintro rfl
        simp [targets, hshared] at hcell
    exact (List.getElem?_set_ne hne).trans hasked
  | assignedHeld hheld =>
    refine List.getElem?_set_ne ?_
    rintro rfl
    simp [targets, hheld] at hcell
  | openedShared =>
    exact (List.getElem?_append_left (Nat.lt_of_lt_of_le hlt s.cells_asked.length_le)).trans hasked
  | opened => exact List.getElem?_append_left hlt
  | assignedService hservice =>
    refine List.getElem?_set_ne ?_
    rintro rfl
    simp [targets, hservice] at hcell

theorem record_after (hlt : cell < s.cells.length) (hcell : cell ∉ s.targets step) :
    (s.after step).record cell = s.record cell := by
  rw [record, record, getElem?_cells_after hlt hcell]

theorem services_after (s : Session) (step : SettingsStep) :
    s.services <+: (s.after step).services := by
  have houtcome := outcome_apply s step
  unfold Session.after
  generalize s.apply step = result at houtcome
  cases houtcome with
  | refusedShared => rw [services_asked]
  | held => exact (services_asked s).symm ▸ List.prefix_rfl
  | assignedShared => exact (services_asked s).symm ▸ List.prefix_rfl
  | openedShared => exact (services_asked s).symm ▸ List.prefix_append _ _
  | opened => exact List.prefix_append _ _
  | _ => exact List.prefix_rfl

/-- A step writes to cells outside of services, or to that of the service it addresses. -/
theorem mem_targets (h : cell ∈ s.targets step) :
    cell ∈ s.reachable ∨ ∃ j, step.ofService j = true ∧ s.services[j]? = some cell := by
  cases step with
  | assignShared field v => exact Or.inl (List.mem_append_left _ h)
  | assignHeld k field v => exact Or.inl (mem_reachable_of_held (Option.mem_toList.mp h))
  | assignService j field v =>
    exact Or.inr ⟨j, by simp [SettingsStep.ofService], Option.mem_toList.mp h⟩
  | _ => cases h

theorem Apart.serviceRecord_after (h : s.Apart) (hi : i < s.services.length)
    (hstep : step.ofService i = false) : (s.after step).serviceRecord i = s.serviceRecord i := by
  have hcell : s.services[i]? = some s.services[i] := List.getElem?_eq_getElem hi
  have hmem := List.getElem_mem hi
  have hnot : s.services[i] ∉ s.targets step := by
    intro htarget
    rcases mem_targets htarget with hreach | ⟨j, hj, he⟩
    · exact (h.outside _ hreach).2 hmem
    · have hij : i = j := (List.getElem?_inj hi h.distinct).mp (hcell.trans he.symm)
      rw [hij, hj] at hstep
      cases hstep
  simp only [serviceRecord, getElem?_of_prefix (s.services_after step) hi, hcell]
  exact record_after (h.exist _ hmem) hnot

/-- What the outside sees is the same: the shared configuration and those that callers hold. -/
structure SameOutside (s t : Session) : Prop where
  sharedCell : ∀ cell ∈ s.sharedCell, cell ∈ t.sharedCell
  shared : t.sharedRecord = s.sharedRecord
  held : t.held = s.held
  records : ∀ cell ∈ s.held, t.record cell = s.record cell

theorem SameOutside.trans {t u : Session} (h : s.SameOutside t) (h' : t.SameOutside u) :
    s.SameOutside u where
  sharedCell cell hcell := h'.sharedCell cell (h.sharedCell cell hcell)
  shared := h'.shared.trans h.shared
  held := h'.held.trans h.held
  records cell hcell := (h'.records cell (h.held ▸ hcell)).trans (h.records cell hcell)

theorem Apart.sharedRecord_allocate (h : s.Apart) (r : SettingsRecord) :
    (s.allocate r).sharedRecord = s.sharedRecord := by
  cases hshared : s.sharedCell with
  | none => simp [sharedRecord, Session.allocate, hshared]
  | some c =>
    have hlt := (h.outside c (by simp [reachable, hshared])).1
    simp [sharedRecord, Session.allocate, hshared, record, List.getElem?_append_left hlt]

theorem sharedRecord_write (hcell : cell ∉ s.reachable) (r : SettingsRecord) :
    (s.write cell r).sharedRecord = s.sharedRecord := by
  cases hshared : s.sharedCell with
  | none => simp [sharedRecord, write, hshared]
  | some c =>
    have hne : cell ≠ c := by
      rintro rfl
      simp [reachable, hshared] at hcell
    simp [sharedRecord, write, hshared, record, List.getElem?_set_ne hne]

theorem Apart.notMem_reachable (h : s.Apart) (hi : s.services[i]? = some cell) :
    cell ∉ s.reachable := fun hreach =>
  (h.outside cell hreach).2 (List.mem_of_getElem? hi)

theorem Apart.sameOutside_after (h : s.Apart) (hstep : step.ofServices = true) :
    s.SameOutside (s.after step) := by
  have hrecords : ∀ cell ∈ s.held, (s.after step).record cell = s.record cell := by
    intro cell hcell
    have hreach : cell ∈ s.reachable := List.mem_append_right _ hcell
    refine record_after (h.outside cell hreach).1 fun htarget => ?_
    cases step with
    | assignService i field v => exact h.notMem_reachable (Option.mem_toList.mp htarget) hreach
    | openService config => cases htarget
    | _ => cases hstep
  suffices hsame : (∀ cell ∈ s.sharedCell, cell ∈ (s.after step).sharedCell) ∧
      (s.after step).sharedRecord = s.sharedRecord ∧ (s.after step).held = s.held from
    ⟨hsame.1, hsame.2.1, hsame.2.2, hrecords⟩
  have houtcome := outcome_apply s step
  unfold Session.after
  generalize s.apply step = result at houtcome
  cases houtcome with
  | refused => exact ⟨fun _ => id, rfl, rfl⟩
  | idle => exact ⟨fun _ => id, rfl, rfl⟩
  | openedShared =>
    exact ⟨mem_sharedCell_asked s, (h.asked.sharedRecord_allocate _).trans (sharedRecord_asked s),
      held_asked s⟩
  | opened => exact ⟨fun _ => id, h.sharedRecord_allocate _, rfl⟩
  | assignedService hi => exact ⟨fun _ => id, sharedRecord_write (h.notMem_reachable hi) _, rfl⟩
  | _ => cases hstep

theorem Apart.sameOutside_run (h : s.Apart) {steps : List SettingsStep}
    (hsteps : ∀ step ∈ steps, step.ofServices = true) :
    s.SameOutside (steps.foldl Session.after s) := by
  induction steps generalizing s with
  | nil => exact ⟨fun _ => id, rfl, rfl, fun _ _ => rfl⟩
  | cons step rest ih =>
    obtain ⟨hstep, hrest⟩ := List.forall_mem_cons.mp hsteps
    exact (h.sameOutside_after hstep).trans (ih (h.after step) hrest)

/-! ## Changes of a service -/

theorem apply_assignService (hi : s.services[i]? = some cell) (field : String) (v : Value) :
    s.apply (.assignService i field v) =
      match (s.record cell).assign field v with
      | .ok r => (.ok (), s.write cell r)
      | .refused issues => (.error issues, s) := by
  simp only [apply, SettingsStep.perform, run_withCell, run_assign, hi]
  rfl

theorem serviceRecord_eq (hi : s.services[i]? = some cell) : s.serviceRecord i = s.record cell := by
  simp only [serviceRecord, hi]

theorem serviceRecord_write (hi : s.services[i]? = some cell) (hlt : cell < s.cells.length)
    (r : SettingsRecord) : (s.write cell r).serviceRecord i = r := by
  have hservices : (s.write cell r).services[i]? = some cell := hi
  rw [serviceRecord_eq hservices, record, write, List.getElem?_set_self hlt, Option.getD_some]

/-- A service becomes what the assignment makes of its record. -/
theorem Apart.serviceRecord_assign (h : s.Apart) (hi : i < s.services.length) (field : String)
    (v : Value) :
    (s.after (.assignService i field v)).serviceRecord i =
      match (s.serviceRecord i).assign field v with
      | .ok r => r
      | .refused _ => s.serviceRecord i := by
  have hcell : s.services[i]? = some s.services[i] := List.getElem?_eq_getElem hi
  rw [Session.after, apply_assignService hcell, serviceRecord_eq hcell]
  cases (s.record s.services[i]).assign field v with
  | ok r => exact serviceRecord_write hcell (h.exist _ (List.getElem_mem hi)) r
  | refused issues => exact serviceRecord_eq hcell

/-- The service is there in both sessions, with the same record. -/
structure SameService (i : Nat) (s t : Session) : Prop where
  left : s.Apart
  right : t.Apart
  inLeft : i < s.services.length
  inRight : i < t.services.length
  record : s.serviceRecord i = t.serviceRecord i

theorem SameService.after_other {t : Session} (h : SameService i s t)
    (hstep : step.ofService i = false) : SameService i (s.after step) t where
  left := h.left.after step
  right := h.right
  inLeft := Nat.lt_of_lt_of_le h.inLeft (s.services_after step).length_le
  inRight := h.inRight
  record := (h.left.serviceRecord_after h.inLeft hstep).trans h.record

theorem SameService.after_own {t : Session} (h : SameService i s t)
    (hstep : step.ofService i = true) : SameService i (s.after step) (t.after step) where
  left := h.left.after step
  right := h.right.after step
  inLeft := Nat.lt_of_lt_of_le h.inLeft (s.services_after step).length_le
  inRight := Nat.lt_of_lt_of_le h.inRight (t.services_after step).length_le
  record := by
    cases step with
    | assignService j field v =>
      obtain rfl : j = i := by simpa [SettingsStep.ofService] using hstep
      rw [h.left.serviceRecord_assign h.inLeft, h.right.serviceRecord_assign h.inRight, h.record]
    | _ => cases hstep

theorem SameService.run {t : Session} (h : SameService i s t) (steps : List SettingsStep) :
    SameService i (steps.foldl Session.after s)
      ((steps.filter (SettingsStep.ofService i)).foldl Session.after t) := by
  induction steps generalizing s t with
  | nil => exact h
  | cons step rest ih =>
    by_cases hstep : step.ofService i = true
    · rw [List.filter_cons_of_pos hstep]
      exact ih (h.after_own hstep)
    · rw [List.filter_cons_of_neg hstep]
      exact ih (h.after_other (Bool.not_eq_true _ ▸ hstep))

/-- A size of a service is changed to every number within the bound, and to no other. -/
theorem Apart.assign_size (h : s.Apart) (hi : i < s.services.length) {c : Settings}
    (hc : s.serviceRecord i = .ofSettings c) (field : String) (bound : Int)
    (resized : Int → Settings) (hfield : SettingsRecord.isPrivate field = false)
    (hfree : ∀ v, SettingsRecord.reservedFault? field v = none)
    (hassign : ∀ v, c.assign field v = ((readAtLeast bound v).under (.key field)).map resized)
    (n : Int) :
    (s.after (.assignService i field (.int n))).service i = if bound ≤ n then resized n else c := by
  rw [service, h.serviceRecord_assign hi, hc, SettingsRecord.assign_ofSettings c hfield (hfree _),
    hassign, readAtLeast_int]
  by_cases hn : bound ≤ n
  · rw [if_pos hn, if_pos hn]
    rfl
  · rw [if_neg hn, if_neg hn]
    rfl

end Session

namespace Chunking

theorem chunkSource_ne_badRefiner {settings : Settings} (h : settings.Valid) (parser : Parser)
    (splitter : TextSplitter) (inst : Installation) (source : Source) (e : RefinerError) :
    (chunkSource settings parser splitter inst source).value.1 ≠ .error (.badRefiner e) := by
  cases hu : (unrefined settings parser splitter (inst.resolve source.language).value.1
      source).value with
  | ok cs =>
    rw [value_chunkSource h.1 h.2.1 hu]
    simp
  | error e' =>
    intro he
    simp only [chunkSource, chunkWith, Logged.value_bind, Logged.value_pure, hu] at he
    cases he
    rcases unrefined_cases settings parser splitter (inst.resolve source.language).value.1 source
      with hok | ⟨g, t, _, _, hchunks⟩
    · rw [hu] at hok
      cases hok
    · obtain ⟨issues, _, hissues⟩ := mapError_eq_error.mp (hchunks.symm.trans hu)
      cases hissues

end Chunking

/-- After every run over fields each configuration is valid, and each service has one of its own. A
refused step leaves all of them as they were. Services are opened and changed without a change of the
shared configuration or of one that a caller holds, and no step but its own changes a service, so that
over a further run a service depends on the steps that address it alone. The two sizes of a service
take every number within their bounds and no other. So no service has sizes that refinement
refuses. -/
theorem settings_valid_and_isolated {steps : List SettingsStep}
    (hsteps : ∀ step ∈ steps, step.onFields = true) {s : Session}
    (hs : s = steps.foldl Session.after .fresh) :
    (s.Sound ∧ s.Apart) ∧
    (∀ step issues, (s.apply step).1 = .error issues → s.Unchanged (s.after step)) ∧
    (∀ step, step.ofServices = true → s.SameOutside (s.after step)) ∧
    (∀ step, ∀ i < s.services.length, step.ofService i = false →
      (s.after step).serviceRecord i = s.serviceRecord i) ∧
    (∀ more : List SettingsStep,
      ((∀ step ∈ more, step.ofServices = true) → s.SameOutside (more.foldl Session.after s)) ∧
      ∀ i < s.services.length, (more.foldl Session.after s).serviceRecord i =
        ((more.filter (SettingsStep.ofService i)).foldl Session.after s).serviceRecord i) ∧
    (∀ i < s.services.length, ∃ c : Settings, s.serviceRecord i = .ofSettings c ∧ ∀ n : Int,
      (s.after (.assignService i "max_chunk_size" (.int n))).service i =
        (if 1 ≤ n then { c with maxChunkSize := n } else c) ∧
      (s.after (.assignService i "overlap_size" (.int n))).service i =
        (if 0 ≤ n then { c with overlapSize := n } else c)) ∧
    ∀ i parser splitter inst source e,
      (chunkSource (s.service i) parser splitter inst source).value.1 ≠ .error (.badRefiner e) := by
  have hsound : s.Sound := hs ▸ Session.sound_fresh.run hsteps
  have hapart : s.Apart := hs ▸ Session.apart_fresh.run steps
  refine ⟨⟨hsound, hapart⟩, fun step issues => Session.unchanged_of_refused,
    fun step => hapart.sameOutside_after, fun step i => hapart.serviceRecord_after,
    fun more => ⟨hapart.sameOutside_run, ?_⟩, ?_,
    fun i => Chunking.chunkSource_ne_badRefiner (hsound.valid_service i)⟩
  · intro i hi
    exact (Session.SameService.run ⟨hapart, hapart, hi, hi, rfl⟩ more).record
  · intro i hi
    obtain ⟨c, _, hc⟩ := hsound.record s.services[i]
    have hrecord : s.serviceRecord i = .ofSettings c :=
      (Session.serviceRecord_eq (List.getElem?_eq_getElem hi)).trans hc
    refine ⟨c, hrecord, fun n => ⟨?_, ?_⟩⟩
    · exact hapart.assign_size hi hrecord "max_chunk_size" 1
        (fun n => { c with maxChunkSize := n }) (by decide) (fun _ => rfl) (fun _ => rfl) n
    · exact hapart.assign_size hi hrecord "overlap_size" 0
        (fun n => { c with overlapSize := n }) (by decide) (fun _ => rfl) (fun _ => rfl) n

/-- A configuration that its maker shares and goes on changing, two services opened around a change
of it, and refused steps in between, the last of them on a shared configuration made for it. -/
def interleavedSteps : List SettingsStep :=
  [.make (.object [("overlap_size", .int 7)]), .share 0, .openService none,
    .assignService 0 "max_chunk_size" (.int 0), .assignHeld 0 "max_workers" (.int 2),
    .openService (some 0), .assignService 1 "max_chunk_size" (.int 12),
    .assignShared "overlap_size" (.int (-1)), .resetShared, .assignShared "max_workers" (.int 0)]

def interleavedSession : Session :=
  ⟨[.ofSettings ⟨2500, 7, true, 2⟩, .ofSettings ⟨2500, 7, true, 4⟩, .ofSettings ⟨12, 7, true, 2⟩,
    .ofSettings .standard], some 3, [0], [1, 2]⟩

theorem interleavedSteps_valid_and_isolated :
    (∀ step ∈ interleavedSteps, step.onFields = true) ∧
    interleavedSession = interleavedSteps.foldl Session.after .fresh ∧
    interleavedSession.Sound ∧ interleavedSession.Apart ∧
    interleavedSession.SameOutside (interleavedSession.after (.openService (some 0))) ∧
    (interleavedSession.after (.assignHeld 0 "max_chunk_size" (.int 5))).serviceRecord 1 =
      .ofSettings ⟨12, 7, true, 2⟩ ∧
    (interleavedSession.after (.assignService 1 "overlap_size" (.int (-1)))).service 1 =
      ⟨12, 7, true, 2⟩ ∧
    ∀ parser splitter inst source e,
      (chunkSource ⟨12, 7, true, 2⟩ parser splitter inst source).value.1 ≠
        .error (.badRefiner e) := by
  have hsteps : ∀ step ∈ interleavedSteps, step.onFields = true := by decide
  have hend : interleavedSession = interleavedSteps.foldl Session.after .fresh := rfl
  obtain ⟨⟨hsound, hapart⟩, _, houtside, hservices, _, hsizes, hrefiner⟩ :=
    settings_valid_and_isolated hsteps hend
  obtain ⟨c, hc, hassign⟩ := hsizes 1 (by decide)
  have hrecord : interleavedSession.serviceRecord 1 = .ofSettings ⟨12, 7, true, 2⟩ := rfl
  obtain rfl : c = ⟨12, 7, true, 2⟩ := congrArg SettingsRecord.settings (hc.symm.trans hrecord)
  exact ⟨hsteps, hend, hsound, hapart, houtside _ rfl,
    (hservices (.assignHeld 0 "max_chunk_size" (.int 5)) 1 (by decide) rfl).trans hrecord,
    (hassign (-1)).2, hrefiner 1⟩

end SourceChunking
