import SourceChunking.Proofs.PreOrder

/-! # Forests listed in pre-order

A forest is listed by numbering its nodes in pre-order and noting the number of each parent. An
array of nodes holds a forest if its parents are those of the listing. The listing of one tree is
in pre-order, node by node: every node is below the one before it or below an ancestor of that
one. The subtree of a node takes up as many places as the forest has nodes there.
-/
namespace SourceChunking

/-- Trees one behind the other: what is below the first root, and the trees behind the first. -/
inductive Forest where
  | nil
  | branch (below rest : Forest)
deriving Repr, DecidableEq

namespace Forest

def size : Forest → Nat
  | nil => 0
  | branch below rest => below.size + 1 + rest.size

/-- The parents of all nodes in pre-order, where the roots are below `parent` and the first node has
the number `next`. -/
def parents : Option Nat → Nat → Forest → List (Option Nat)
  | _, _, nil => []
  | parent, next, branch below rest =>
    parent :: below.parents (some next) (next + 1) ++ rest.parents parent (next + 1 + below.size)

/-- The sizes of the subtrees of all nodes in pre-order. -/
def sizes : Forest → List Nat
  | nil => []
  | branch below rest => (below.size + 1) :: below.sizes ++ rest.sizes

theorem add_size_branch (next : Nat) (below rest : Forest) :
    next + (branch below rest).size = next + 1 + below.size + rest.size := by
  simp only [size]
  omega

@[simp] theorem length_parents (parent : Option Nat) (next : Nat) (f : Forest) :
    (f.parents parent next).length = f.size := by
  induction f generalizing parent next with
  | nil => rfl
  | branch below rest hbelow hrest =>
    simp only [parents, size, List.length_append, List.length_cons, hbelow, hrest]

@[simp] theorem length_sizes (f : Forest) : f.sizes.length = f.size := by
  induction f with
  | nil => rfl
  | branch below rest hbelow hrest =>
    simp only [sizes, size, List.length_append, List.length_cons, hbelow, hrest]

end Forest

namespace Tree
variable {t : Tree}

/-- The nodes from `next` on are those of a forest in pre-order, with its roots below `parent`. -/
def Holds (t : Tree) : Option Nat → Nat → Forest → Prop
  | _, _, .nil => True
  | parent, next, .branch below rest =>
    t.parent? next = parent ∧ t.Holds (some next) (next + 1) below ∧
      t.Holds parent (next + 1 + below.size) rest

theorem holds_of_parents {parent : Option Nat} {next : Nat} {f : Forest}
    (h : (List.range' next f.size).map t.parent? = f.parents parent next) :
    t.Holds parent next f := by
  induction f generalizing parent next with
  | nil => trivial
  | branch below rest hbelow hrest =>
    have hrange : List.range' next (below.size + 1 + rest.size) =
        next :: (List.range' (next + 1) below.size ++
          List.range' (next + 1 + below.size) rest.size) := by
      rw [Nat.add_right_comm, List.range'_succ, List.range'_append_1]
    rw [Forest.size, hrange, List.map_cons, List.map_append, Forest.parents, List.cons_append,
      List.cons.injEq] at h
    obtain ⟨hparent, happend⟩ := h
    obtain ⟨hleft, hright⟩ := List.append_inj happend (by simp)
    exact ⟨hparent, hbelow hleft, hrest hright⟩

/-- Listed below a node in front of them, all nodes come after their parents. -/
theorem Holds.parent_lt {a next : Nat} {f : Forest} (h : t.Holds (some a) next f) (ha : a < next) :
    ∀ i, next ≤ i → i < next + f.size → ∃ p < i, t.parent? i = some p := by
  induction f generalizing a next with
  | nil =>
    intro i hle hlt
    exact absurd hlt (by simp only [Forest.size]; omega)
  | branch below rest hbelow hrest =>
    obtain ⟨hparent, hb, hr⟩ := h
    intro i hle hlt
    rw [Forest.add_size_branch] at hlt
    rcases Nat.eq_or_lt_of_le hle with rfl | hgt
    · exact ⟨a, ha, hparent⟩
    · by_cases hi : i < next + 1 + below.size
      · exact hbelow hb (Nat.lt_succ_self next) i hgt hi
      · exact hrest hr (by omega) i (by omega) hlt

/-- The listing goes on below a node as long as that node is on the way up from the last one: each
node is found on the way up from the one before, and so is the node that all are below. -/
theorem Holds.parent_mem (hr : t.Rooted) {a next : Nat} {f : Forest}
    (h : t.Holds (some a) next f) (ha : t.InSubtree a (next - 1)) (hpos : 0 < next) :
    (∀ i, next ≤ i → i < next + f.size →
      ∃ p ∈ (i - 1) :: t.ancestors (i - 1), t.parent? i = some p) ∧
    t.InSubtree a (next + f.size - 1) := by
  induction f generalizing a next with
  | nil => exact ⟨fun i hle hlt => absurd hlt (by simp only [Forest.size]; omega), ha⟩
  | branch below rest hbelow hrest =>
    obtain ⟨hparent, hb, hrest'⟩ := h
    have hself : t.InSubtree next (next + 1 - 1) := List.mem_cons_self
    have hup : t.InSubtree a next := by
      rw [InSubtree, hr.ancestors_eq hparent]
      simp
    obtain ⟨hin, hlast⟩ := hbelow hb hself (by omega)
    obtain ⟨hin', hlast'⟩ := hrest hrest' (hr.inSubtree_trans hup hlast) (by omega)
    rw [Forest.add_size_branch]
    refine ⟨?_, hlast'⟩
    intro i hle hlt
    rcases Nat.eq_or_lt_of_le hle with rfl | hgt
    · exact ⟨a, ha, hparent⟩
    · by_cases hi : i < next + 1 + below.size
      · exact hin i hgt hi
      · exact hin' i (by omega) hlt

/-- What a tree holds at each of its nodes: the forest below the node stands right behind it, and
the node behind that forest is below a node in front. -/
theorem Holds.at_node {parent : Option Nat} {next : Nat} {f : Forest} (h : t.Holds parent next f)
    (hparent : ∀ a ∈ parent, a < next) (hafter : ∀ q ∈ t.parent? (next + f.size), q < next)
    {j k : Nat} (hk : f.sizes[j]? = some k) :
    ∃ below, k = below.size + 1 ∧ t.Holds (some (next + j)) (next + j + 1) below ∧
      ∀ q ∈ t.parent? (next + j + k), q < next + j := by
  induction f generalizing parent next j with
  | nil => simp [Forest.sizes] at hk
  | branch below rest hbelow hrest =>
    obtain ⟨hroot, hb, hr⟩ := h
    rw [Forest.add_size_branch] at hafter
    -- behind the first tree comes the next root, or what comes behind the forest
    have hmid : ∀ q ∈ t.parent? (next + 1 + below.size), q < next := by
      cases rest with
      | nil => exact hafter
      | branch below' rest' =>
        rw [hr.1]
        exact hparent
    cases j with
    | zero =>
      obtain rfl : below.size + 1 = k := by simpa [Forest.sizes] using hk
      refine ⟨below, rfl, hb, ?_⟩
      rwa [show next + 0 + (below.size + 1) = next + 1 + below.size by omega]
    | succ j =>
      rw [Forest.sizes, List.cons_append, List.getElem?_cons_succ] at hk
      by_cases hj : j < below.size
      · rw [List.getElem?_append_left (by simpa using hj)] at hk
        rw [show next + (j + 1) = next + 1 + j by omega]
        apply hbelow hb _ _ hk
        · intro a ha
          cases ha
          omega
        · intro q hq
          have := hmid q hq
          omega
      · rw [List.getElem?_append_right (by simpa using hj), Forest.length_sizes] at hk
        rw [show next + (j + 1) = next + 1 + below.size + (j - below.size) by omega]
        apply hrest hr _ _ hk
        · intro a ha
          have := hparent a ha
          omega
        · intro q hq
          have := hafter q hq
          omega

/-! ## The listing of one tree -/

theorem rooted_of_holds {below : Forest} (h : t.Holds none 0 (.branch below .nil))
    (hsize : t.size = below.size + 1) : t.Rooted where
  root := h.1
  parent_lt i hi hpos := h.2.1.parent_lt (Nat.zero_lt_one) i hpos (by omega)

theorem preOrdered_of_holds {below : Forest} (h : t.Holds none 0 (.branch below .nil))
    (hsize : t.size = below.size + 1) : t.PreOrdered where
  toRooted := rooted_of_holds h hsize
  parent_mem i hi hpos :=
    (h.2.1.parent_mem (rooted_of_holds h hsize) List.mem_cons_self Nat.zero_lt_one).1 i hpos
      (by omega)

theorem PreOrdered.walk_eq_range' (h : t.PreOrdered) {i : Nat} (hi : i < t.size) :
    t.walk i = List.range' i (t.walk i).length := by
  -- a stretch of the walk from the root, which goes through all indices
  obtain ⟨before, after, he, _⟩ := h.exists_walk_split (by omega) (h.mem_walk_root hi)
  rw [h.walk_root (by omega), List.range_eq_range', List.append_assoc] at he
  obtain ⟨n, _, _, hrest⟩ := List.range'_eq_append_iff.mp he
  obtain ⟨k, _, hwalk, _⟩ := List.range'_eq_append_iff.mp hrest.symm
  rw [Nat.mul_one, Nat.zero_add] at hwalk
  have hlength : (t.walk i).length = k := by rw [hwalk, List.length_range']
  have hhead : i = n := by
    have hfirst := congrArg List.head? hwalk
    rw [h.walk_eq hi] at hfirst
    cases k with
    | zero => simp at hfirst
    | succ k => simpa [List.range'_succ] using hfirst
  rw [hlength, hwalk, hhead]

theorem lt_size_of_inSubtree {i j : Nat} (hi : i < t.size) (h : t.InSubtree i j) : j < t.size := by
  rcases List.mem_cons.mp h with rfl | hup
  · exact hi
  · by_contra hge
    rw [ancestors_of_root (parent?_of_size_le (by omega))] at hup
    cases hup

theorem Rooted.not_inSubtree_of_parent (h : t.Rooted) {i j : Nat} (hij : i < j)
    (hparent : ∀ q ∈ t.parent? j, q < i) : ¬t.InSubtree i j := by
  intro hin
  have hup : i ∈ t.ancestors j := (List.mem_cons.mp hin).resolve_left (by omega)
  cases hp : t.parent? j with
  | none => simp [ancestors_of_root hp] at hup
  | some q =>
    have hq := hparent q hp
    rw [h.ancestors_eq hp] at hup
    have hle := h.le_of_inSubtree (show t.InSubtree i q from hup)
    omega

/-- The walk through a subtree has as many nodes as the listed tree has there. -/
theorem length_walk_of_holds {below : Forest} (h : t.Holds none 0 (.branch below .nil))
    (hsize : t.size = below.size + 1) {i k : Nat} (hi : i < t.size)
    (hk : (Forest.branch below .nil).sizes[i]? = some k) : (t.walk i).length = k := by
  have hpre := preOrdered_of_holds h hsize
  have hend : ∀ q ∈ t.parent? (0 + (Forest.branch below .nil).size), q < 0 := by
    rw [parent?_of_size_le (by simp only [Forest.size]; omega)]
    simp
  obtain ⟨inside, rfl, hin, hafter⟩ := h.at_node (by simp) hend hk
  rw [Nat.zero_add] at hin hafter
  -- the last node of the subtree is on the walk, the node behind it is not
  have hlast : t.InSubtree i (i + inside.size) := by
    have := (hin.parent_mem hpre.toRooted List.mem_cons_self (Nat.succ_pos i)).2
    rwa [show i + 1 + inside.size - 1 = i + inside.size by omega] at this
  have hmem := (hpre.mem_walk hi (lt_size_of_inSubtree hi hlast)).mpr hlast
  have hout : i + (inside.size + 1) ∉ t.walk i := fun hm =>
    hpre.not_inSubtree_of_parent (by omega) hafter (hpre.inSubtree_of_mem_walk hi hm)
  rw [hpre.walk_eq_range' hi, List.mem_range'_1] at hmem hout
  omega

end Tree
end SourceChunking
