import SourceChunking.Proofs.Boundaries

/-! # Subtrees and ancestors

The walks of a tree are bounded by its size. Where parents come before their children the
bound is never reached, so the walks satisfy the equations of unbounded ones. The subtree of
a node is then the set of nodes that have it among their ancestors, and the subtrees of the
outermost nodes of some kinds are found by looking up from each node.
-/
namespace SourceChunking.Tree

/-- The first node is the root, and every other one comes after its parent. -/
structure Rooted (t : Tree) : Prop where
  root : t.parent? 0 = none
  parent_lt : ∀ i < t.size, 0 < i → ∃ p < i, t.parent? i = some p

instance (t : Tree) : Decidable t.Rooted :=
  decidable_of_iff (t.parent? 0 = none ∧ ∀ i < t.size, 0 < i → ∃ p < i, t.parent? i = some p)
    ⟨fun ⟨a, b⟩ => ⟨a, b⟩, fun ⟨a, b⟩ => ⟨a, b⟩⟩

theorem parent?_of_size_le {t : Tree} {i : Nat} (h : t.size ≤ i) : t.parent? i = none := by
  have habsent : t.node i = Node.absent := by
    unfold node
    rw [Array.getD_eq_getD_getElem?, Array.getElem?_eq_none h]
    rfl
  rw [parent?, habsent]
  rfl

variable {t : Tree}

theorem lt_size_of_parent {i p : Nat} (hp : t.parent? i = some p) : i < t.size := by
  by_contra hge
  rw [parent?_of_size_le (by omega)] at hp
  cases hp

theorem Rooted.lt_of_parent (h : t.Rooted) {i p : Nat} (hp : t.parent? i = some p) :
    p < i ∧ i < t.size := by
  have hsize := lt_size_of_parent hp
  have hpos : 0 < i := by
    rcases Nat.eq_zero_or_pos i with rfl | hpos
    · rw [h.root] at hp
      cases hp
    · exact hpos
  obtain ⟨q, hq, he⟩ := h.parent_lt i hsize hpos
  rw [hp] at he
  cases he
  exact ⟨hq, hsize⟩

theorem Rooted.lt_of_mem_children (h : t.Rooted) {i j : Nat} (hj : j ∈ t.children i) :
    i < j ∧ j < t.size :=
  h.lt_of_parent (mem_children.mp hj).2

theorem root?_of_pos (hsize : 0 < t.size) : t.root? = some 0 := by
  rw [root?, if_neg (by omega)]

/-! ## Equations without a bound -/

theorem Rooted.walkWithin_eq (h : t.Rooted) {d d' i : Nat} (hi : i < t.size)
    (hd : t.size ≤ d + i) (hd' : t.size ≤ d' + i) : t.walkWithin d i = t.walkWithin d' i := by
  induction d generalizing d' i with
  | zero => omega
  | succ d ih =>
    cases d' with
    | zero => omega
    | succ d' =>
      have hbelow : (t.children i).flatMap (t.walkWithin d) =
          (t.children i).flatMap (t.walkWithin d') := by
        refine List.flatMap_congr fun j hj => ?_
        obtain ⟨hlt, hsize⟩ := h.lt_of_mem_children hj
        exact ih hsize (by omega) (by omega)
      rw [walkWithin, walkWithin, hbelow]

theorem Rooted.walk_eq (h : t.Rooted) {i : Nat} (hi : i < t.size) :
    t.walk i = i :: (t.children i).flatMap t.walk := by
  have hbelow : (t.children i).flatMap (t.walkWithin t.size) = (t.children i).flatMap t.walk := rfl
  have hstep : t.walkWithin t.size i = t.walkWithin (t.size + 1) i :=
    h.walkWithin_eq hi (by omega) (by omega)
  rw [walk, hstep, walkWithin, hbelow]

theorem Rooted.outermostWithin_eq (h : t.Rooted) {kinds : List String} {d d' i : Nat}
    (hi : i < t.size) (hd : t.size ≤ d + i) (hd' : t.size ≤ d' + i) :
    t.outermostWithin kinds d i = t.outermostWithin kinds d' i := by
  induction d generalizing d' i with
  | zero => omega
  | succ d ih =>
    cases d' with
    | zero => omega
    | succ d' =>
      have hbelow : (t.children i).flatMap (t.outermostWithin kinds d) =
          (t.children i).flatMap (t.outermostWithin kinds d') := by
        refine List.flatMap_congr fun j hj => ?_
        obtain ⟨hlt, hsize⟩ := h.lt_of_mem_children hj
        exact ih hsize (by omega) (by omega)
      rw [outermostWithin, outermostWithin, hbelow]

theorem Rooted.outermostWithin_size (h : t.Rooted) (kinds : List String) {i : Nat}
    (hi : i < t.size) :
    t.outermostWithin kinds t.size i = if kinds.contains (t.kind i) then [i]
      else (t.children i).flatMap (t.outermostWithin kinds t.size) := by
  have hstep : t.outermostWithin kinds t.size i = t.outermostWithin kinds (t.size + 1) i :=
    h.outermostWithin_eq hi (by omega) (by omega)
  rw [hstep, outermostWithin]

theorem Rooted.ancestorsWithin_eq (h : t.Rooted) {n m i : Nat} (hn : i ≤ n) (hm : i ≤ m) :
    t.ancestorsWithin n i = t.ancestorsWithin m i := by
  induction n generalizing m i with
  | zero =>
    obtain rfl : i = 0 := by omega
    cases m with
    | zero => rfl
    | succ m => simp [ancestorsWithin, h.root]
  | succ n ih =>
    cases hp : t.parent? i with
    | none => cases m <;> simp [ancestorsWithin, hp]
    | some p =>
      obtain ⟨hlt, _⟩ := h.lt_of_parent hp
      cases m with
      | zero => omega
      | succ m => simp [ancestorsWithin, hp, ih (i := p) (m := m) (by omega) (by omega)]

theorem ancestors_of_root {i : Nat} (hp : t.parent? i = none) : t.ancestors i = [] := by
  unfold ancestors
  cases t.size <;> simp [ancestorsWithin, hp]

theorem Rooted.ancestors_eq (h : t.Rooted) {i p : Nat} (hp : t.parent? i = some p) :
    t.ancestors i = p :: t.ancestors p := by
  obtain ⟨hlt, hsize⟩ := h.lt_of_parent hp
  have hstep : t.ancestors i = t.ancestorsWithin (t.size + 1) i :=
    h.ancestorsWithin_eq (by omega) (by omega)
  rw [hstep]
  simp only [ancestorsWithin, hp]
  rfl

/-! ## Chains of ancestors -/

theorem Rooted.lt_of_mem_ancestors (h : t.Rooted) {i a : Nat} (ha : a ∈ t.ancestors i) :
    a < i ∧ a < t.size := by
  induction i using Nat.strongRecOn with
  | _ i ih =>
    cases hp : t.parent? i with
    | none => simp [ancestors_of_root hp] at ha
    | some p =>
      obtain ⟨hlt, hsize⟩ := h.lt_of_parent hp
      rw [h.ancestors_eq hp] at ha
      rcases List.mem_cons.mp ha with rfl | ha
      · omega
      · have := ih p hlt ha
        omega

/-- Behind a node on a chain of ancestors come the ancestors of that node. -/
theorem Rooted.ancestors_of_chain (h : t.Rooted) {i a : Nat} {front rest : List Nat}
    (hc : i :: t.ancestors i = front ++ a :: rest) : rest = t.ancestors a := by
  induction front generalizing i with
  | nil =>
    cases hc
    rfl
  | cons x front ih =>
    rw [List.cons_append, List.cons.injEq] at hc
    obtain ⟨rfl, hc⟩ := hc
    cases hp : t.parent? i with
    | none => simp [ancestors_of_root hp] at hc
    | some p =>
      rw [h.ancestors_eq hp] at hc
      exact ih hc

theorem Rooted.eq_or_below_of_mem_walk (h : t.Rooted) {i j : Nat} (hi : i < t.size)
    (hj : j ∈ t.walk i) : j = i ∨ ∃ k ∈ t.children i, j ∈ t.walk k := by
  rw [h.walk_eq hi] at hj
  rcases List.mem_cons.mp hj with rfl | hj
  · exact Or.inl rfl
  · exact Or.inr (List.mem_flatMap.mp hj)

/-- The chain of a node below `i` ends in the chain of `i`. -/
theorem Rooted.exists_chain (h : t.Rooted) {i j : Nat} (hi : i < t.size) (hj : j ∈ t.walk i) :
    ∃ front, j :: t.ancestors j = front ++ i :: t.ancestors i := by
  induction hn : t.size - i using Nat.strongRecOn generalizing i with
  | _ n ih =>
    rcases h.eq_or_below_of_mem_walk hi hj with rfl | ⟨k, hk, hj⟩
    · exact ⟨[], rfl⟩
    · obtain ⟨hlt, hsize⟩ := h.lt_of_mem_children hk
      obtain ⟨front, he⟩ := ih (t.size - k) (by omega) hsize hj rfl
      rw [h.ancestors_eq (mem_children.mp hk).2] at he
      exact ⟨front ++ [k], by simpa using he⟩

theorem self_mem_walk (hsize : 0 < t.size) (i : Nat) : i ∈ t.walk i := by
  obtain ⟨n, hn⟩ : ∃ n, t.size = n + 1 := ⟨t.size - 1, by omega⟩
  rw [walk, hn, walkWithin]
  exact List.mem_cons_self

theorem Rooted.walk_closed (h : t.Rooted) {i p j : Nat} (hi : i < t.size) (hp : p ∈ t.walk i)
    (hj : t.parent? j = some p) : j ∈ t.walk i := by
  obtain ⟨_, hjsize⟩ := h.lt_of_parent hj
  have hchild : j ∈ t.children p := mem_children.mpr ⟨hjsize, hj⟩
  induction hn : t.size - i using Nat.strongRecOn generalizing i with
  | _ n ih =>
    rw [h.walk_eq hi]
    refine List.mem_cons_of_mem _ (List.mem_flatMap.mpr ?_)
    rcases h.eq_or_below_of_mem_walk hi hp with rfl | ⟨k, hk, hp⟩
    · exact ⟨j, hchild, self_mem_walk (by omega) j⟩
    · obtain ⟨hlt, hsize⟩ := h.lt_of_mem_children hk
      exact ⟨k, hk, ih (t.size - k) (by omega) hsize hp rfl⟩

theorem Rooted.mem_walk (h : t.Rooted) {i j : Nat} (hi : i < t.size) (hj : j < t.size) :
    j ∈ t.walk i ↔ i ∈ j :: t.ancestors j := by
  constructor
  · intro hm
    obtain ⟨front, he⟩ := h.exists_chain hi hm
    simp [he]
  · intro hm
    induction j using Nat.strongRecOn with
    | _ j ih =>
      rcases List.mem_cons.mp hm with rfl | hm
      · exact self_mem_walk (by omega) i
      · cases hp : t.parent? j with
        | none => simp [ancestors_of_root hp] at hm
        | some p =>
          obtain ⟨hlt, _⟩ := h.lt_of_parent hp
          rw [h.ancestors_eq hp] at hm
          exact h.walk_closed hi (ih p hlt (by omega) hm) hp

theorem Rooted.mem_walk_root (h : t.Rooted) {j : Nat} (hj : j < t.size) : j ∈ t.walk 0 := by
  induction j using Nat.strongRecOn with
  | _ j ih =>
    rcases Nat.eq_zero_or_pos j with rfl | hpos
    · exact self_mem_walk hj 0
    · obtain ⟨p, hlt, hp⟩ := h.parent_lt j hj hpos
      exact h.walk_closed (by omega) (ih p hlt (by omega)) hp

theorem Rooted.lt_size_of_mem_walk (h : t.Rooted) {i j : Nat} (hi : i < t.size)
    (hj : j ∈ t.walk i) : j < t.size := by
  induction hn : t.size - i using Nat.strongRecOn generalizing i with
  | _ n ih =>
    rcases h.eq_or_below_of_mem_walk hi hj with rfl | ⟨k, hk, hj⟩
    · exact hi
    · obtain ⟨hlt, hsize⟩ := h.lt_of_mem_children hk
      exact ih (t.size - k) (by omega) hsize hj rfl

/-! ## One subtree inside another -/

/-- The node `j` is `n` or lies below it. -/
def InSubtree (t : Tree) (n j : Nat) : Prop := n ∈ j :: t.ancestors j

instance (t : Tree) (n j : Nat) : Decidable (t.InSubtree n j) :=
  inferInstanceAs (Decidable (n ∈ j :: t.ancestors j))

theorem Rooted.inSubtree_of_mem_walk (h : t.Rooted) {n j : Nat} (hn : n < t.size)
    (hj : j ∈ t.walk n) : t.InSubtree n j :=
  (h.mem_walk hn (h.lt_size_of_mem_walk hn hj)).mp hj

theorem Rooted.le_of_inSubtree (h : t.Rooted) {n j : Nat} (hin : t.InSubtree n j) : n ≤ j := by
  rcases List.mem_cons.mp hin with rfl | hup
  · exact Nat.le_refl _
  · exact Nat.le_of_lt (h.lt_of_mem_ancestors hup).1

theorem Rooted.mem_walk_trans (h : t.Rooted) {i k j : Nat} (hi : i < t.size) (hk : k ∈ t.walk i)
    (hj : j ∈ t.walk k) : j ∈ t.walk i := by
  have hksize := h.lt_size_of_mem_walk hi hk
  obtain ⟨front, he⟩ := h.exists_chain hksize hj
  obtain ⟨front', he'⟩ := h.exists_chain hi hk
  rw [h.mem_walk hi (h.lt_size_of_mem_walk hksize hj), he, he']
  simp

/-- No node lies below two children of one node. -/
theorem Rooted.eq_of_mem_walk_children (h : t.Rooted) {i j k k' : Nat} (hk : k ∈ t.children i)
    (hk' : k' ∈ t.children i) (hj : j ∈ t.walk k) (hj' : j ∈ t.walk k') : k = k' := by
  obtain ⟨front, he⟩ := h.exists_chain (h.lt_of_mem_children hk).2 hj
  obtain ⟨front', he'⟩ := h.exists_chain (h.lt_of_mem_children hk').2 hj'
  rw [h.ancestors_eq (mem_children.mp hk).2] at he
  rw [h.ancestors_eq (mem_children.mp hk').2, he] at he'
  have hfronts : (front ++ [k]) ++ (i :: t.ancestors i) = (front' ++ [k']) ++ (i :: t.ancestors i) := by
    simpa using he'
  have hlast := (List.append_inj' (List.append_cancel_right hfronts) rfl).2
  exact List.head_eq_of_cons_eq hlast

theorem Rooted.eq_of_inSubtree (h : t.Rooted) {i j k k' n : Nat} (hk : k ∈ t.children i)
    (hk' : k' ∈ t.children i) (hn : n ∈ t.walk k) (hj : j ∈ t.walk k') (hin : t.InSubtree n j) :
    k = k' := by
  obtain ⟨_, hsize⟩ := h.lt_of_mem_children hk
  have hjsize := h.lt_size_of_mem_walk (h.lt_of_mem_children hk').2 hj
  have hjn := (h.mem_walk (h.lt_size_of_mem_walk hsize hn) hjsize).mpr hin
  exact h.eq_of_mem_walk_children hk hk' (h.mem_walk_trans hsize hn hjn) hj

/-- A subtree stands in one stretch inside the subtrees around it. -/
theorem Rooted.exists_walk_split (h : t.Rooted) {i n : Nat} (hi : i < t.size) (hn : n ∈ t.walk i) :
    ∃ before after, t.walk i = before ++ t.walk n ++ after ∧
      ∀ j ∈ before ++ after, ¬t.InSubtree n j := by
  induction hm : t.size - i using Nat.strongRecOn generalizing i with
  | _ m ih =>
    rcases h.eq_or_below_of_mem_walk hi hn with rfl | ⟨k, hk, hnk⟩
    · exact ⟨[], [], by simp, by simp⟩
    · obtain ⟨hlt, hsize⟩ := h.lt_of_mem_children hk
      obtain ⟨before, after, he, hout⟩ := ih (t.size - k) (by omega) hsize hnk rfl
      obtain ⟨left, right, hc⟩ := List.append_of_mem hk
      have hother : k ∉ left ++ right := by
        have hnodup : (t.children i).Nodup := (t.pairwise_children i).imp Nat.ne_of_lt
        rw [hc, List.perm_middle.nodup_iff] at hnodup
        exact (List.nodup_cons.mp hnodup).1
      -- the other children of `i` have nothing below `n` in their subtrees
      have hsiblings : ∀ k' ∈ left ++ right, ∀ j ∈ t.walk k', ¬t.InSubtree n j := by
        intro k' hk' j hj hin
        have hchild : k' ∈ t.children i := by
          rw [hc, List.perm_middle.mem_iff]
          exact List.mem_cons_of_mem k hk'
        obtain rfl := h.eq_of_inSubtree hk hchild hnk hj hin
        exact hother hk'
      have hself : ¬t.InSubtree n i := by
        intro hin
        have hle := h.le_of_inSubtree hin
        have hle' := h.le_of_inSubtree (h.inSubtree_of_mem_walk hsize hnk)
        omega
      refine ⟨i :: left.flatMap t.walk ++ before, after ++ right.flatMap t.walk, ?_, ?_⟩
      · rw [h.walk_eq hi, hc, List.flatMap_append, List.flatMap_cons, he]
        simp
      · intro j hj
        simp only [List.cons_append, List.append_assoc, List.mem_cons, List.mem_append,
          List.mem_flatMap] at hj
        rcases hj with rfl | ⟨k', hk', hj⟩ | hj | hj | ⟨k', hk', hj⟩
        · exact hself
        · exact hsiblings k' (List.mem_append_left right hk') j hj
        · exact hout j (List.mem_append_left after hj)
        · exact hout j (List.mem_append_right before hj)
        · exact hsiblings k' (List.mem_append_right left hk') j hj

theorem Rooted.filter_walk (h : t.Rooted) {i n : Nat} (hi : i < t.size) (hn : n ∈ t.walk i) :
    ((t.walk i).filter fun j => decide (t.InSubtree n j)) = t.walk n := by
  obtain ⟨before, after, he, hout⟩ := h.exists_walk_split hi hn
  have hnsize := h.lt_size_of_mem_walk hi hn
  have hbefore : (before.filter fun j => decide (t.InSubtree n j)) = [] :=
    List.filter_eq_nil_iff.mpr fun j hj => by simpa using hout j (List.mem_append_left after hj)
  have hafter : (after.filter fun j => decide (t.InSubtree n j)) = [] :=
    List.filter_eq_nil_iff.mpr fun j hj => by simpa using hout j (List.mem_append_right before hj)
  have hwithin : ((t.walk n).filter fun j => decide (t.InSubtree n j)) = t.walk n :=
    List.filter_eq_self.mpr fun j hj => decide_eq_true (h.inSubtree_of_mem_walk hnsize hj)
  rw [he, List.filter_append, List.filter_append, hbefore, hafter, hwithin]
  simp

/-! ## Looking up for outermost nodes -/

/-- A node of one of the kinds, with none of them above it. -/
def IsOutermost (t : Tree) (kinds : List String) (b : Nat) : Prop :=
  t.kind b ∈ kinds ∧ ∀ a ∈ t.ancestors b, t.kind a ∉ kinds

instance (t : Tree) (kinds : List String) (b : Nat) : Decidable (t.IsOutermost kinds b) :=
  inferInstanceAs (Decidable (_ ∧ _))

theorem Rooted.eq_of_isOutermost (h : t.Rooted) {kinds : List String} {j b : Nat}
    {front : List Nat} {i : Nat} (hc : j :: t.ancestors j = front ++ i :: t.ancestors i)
    (hi : t.IsOutermost kinds i) (hb : t.IsOutermost kinds b) (hm : b ∈ j :: t.ancestors j) :
    b = i := by
  rw [hc] at hm
  rcases List.mem_append.mp hm with hm | hm
  · obtain ⟨pre, post, rfl⟩ := List.append_of_mem hm
    have habove : post ++ i :: t.ancestors i = t.ancestors b :=
      h.ancestors_of_chain (by rw [hc, List.append_assoc, List.cons_append])
    exact absurd hi.1 (hb.2 i (by simp [← habove]))
  · rcases List.mem_cons.mp hm with rfl | hm
    · rfl
    · exact absurd hb.1 (hi.2 b hm)

theorem Rooted.exists_isOutermost (h : t.Rooted) {kinds : List String} {i : Nat}
    (hi : t.kind i ∈ kinds) : ∃ b ∈ i :: t.ancestors i, t.IsOutermost kinds b := by
  induction i using Nat.strongRecOn with
  | _ i ih =>
    by_cases hall : ∀ a ∈ t.ancestors i, t.kind a ∉ kinds
    · exact ⟨i, List.mem_cons_self, hi, hall⟩
    · push Not at hall
      obtain ⟨a, ha, hkind⟩ := hall
      obtain ⟨b, hb, hout⟩ := ih a (h.lt_of_mem_ancestors ha).1 hkind
      obtain ⟨front, rest, hc⟩ := List.append_of_mem (List.mem_cons_of_mem i ha)
      have hrest := h.ancestors_of_chain hc
      refine ⟨b, ?_, hout⟩
      rw [hc, hrest]
      exact List.mem_append_right front hb

/-- Whether an outermost node with a property is found on the way up. -/
def reaches (t : Tree) (kinds : List String) (p : Nat → Bool) (j : Nat) : Bool :=
  (j :: t.ancestors j).any fun b => decide (t.IsOutermost kinds b) && p b

/-- The subtrees of the outermost nodes are picked out of a walk by looking up. -/
theorem Rooted.flatMap_walk_outermostWithin (h : t.Rooted) (kinds : List String) (p : Nat → Bool)
    {i : Nat} (hi : i < t.size) (habove : ∀ a ∈ t.ancestors i, t.kind a ∉ kinds) :
    ((t.outermostWithin kinds t.size i).filter p).flatMap t.walk =
      (t.walk i).filter (t.reaches kinds p) := by
  induction hn : t.size - i using Nat.strongRecOn generalizing i with
  | _ n ih =>
    rw [h.outermostWithin_size kinds hi]
    split_ifs with hkind
    · have hout : t.IsOutermost kinds i := ⟨by simpa using hkind, habove⟩
      have hall : ∀ j ∈ t.walk i, t.reaches kinds p j = p i := by
        intro j hj
        obtain ⟨front, hc⟩ := h.exists_chain hi hj
        rw [Bool.eq_iff_iff, reaches, List.any_eq_true]
        constructor
        · rintro ⟨b, hb, hpb⟩
          simp only [Bool.and_eq_true, decide_eq_true_eq] at hpb
          obtain rfl := h.eq_of_isOutermost hc hout hpb.1 hb
          exact hpb.2
        · intro hpi
          exact ⟨i, by simp [hc], by simp [hout, hpi]⟩
      rw [List.filter_congr hall]
      cases hp : p i <;> simp [hp]
    · have hself : t.reaches kinds p i = false := by
        rw [reaches, List.any_eq_false]
        intro b hb
        have hnot : ¬t.IsOutermost kinds b := by
          rcases List.mem_cons.mp hb with rfl | hb
          · exact fun hout => hkind (by simpa using hout.1)
          · exact fun hout => habove b hb hout.1
        simp [hnot]
      rw [h.walk_eq hi, List.filter_cons_of_neg (by simp [hself]), List.filter_flatMap,
        List.filter_flatMap, List.flatMap_assoc]
      refine List.flatMap_congr fun k hk => ?_
      obtain ⟨hlt, hsize⟩ := h.lt_of_mem_children hk
      refine ih (t.size - k) (by omega) hsize ?_ rfl
      rw [h.ancestors_eq (mem_children.mp hk).2]
      exact List.forall_mem_cons.mpr ⟨by simpa using hkind, habove⟩

theorem Rooted.flatMap_walk_outermost (h : t.Rooted) (kinds : List String) (p : Nat → Bool)
    (hsize : 0 < t.size) :
    ((t.outermost kinds).filter p).flatMap t.walk = (t.walk 0).filter (t.reaches kinds p) := by
  rw [outermost, root?_of_pos hsize]
  exact h.flatMap_walk_outermostWithin kinds p hsize (by simp [ancestors_of_root h.root])

end SourceChunking.Tree
