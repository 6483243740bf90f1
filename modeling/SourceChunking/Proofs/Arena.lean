import SourceChunking.Proofs.Listing

/-! # Copying a tree into an arena

A parser shows its tree through a cursor that moves to the first child of a node, to the next sibling
or to the parent. The copy keeps the indices of the nodes on the way up from the cursor and appends
each node that is reached, which also puts its index behind the children of its parent. What is in
the arena and what the cursor still has ahead of it, put together, never change. The nodes are
therefore listed in pre-order, and the children of a node are the indices that name it as parent.
-/
namespace SourceChunking

structure Link where
  parent : Option Nat
  children : List Nat
deriving Repr, DecidableEq

abbrev Arena := List Link

namespace Arena

/-- Appends a node, and its index to the children of its parent. -/
def push (a : Arena) : Option Nat → Arena
  | none => a ++ [⟨none, []⟩]
  | some p =>
    let grown : Arena := a ++ [⟨some p, []⟩]
    grown.modify p fun l => { l with children := l.children ++ [a.length] }

def pushAll (a : Arena) (parents : List (Option Nat)) : Arena := parents.foldl push a

@[simp] theorem length_push (a : Arena) (parent : Option Nat) :
    (a.push parent).length = a.length + 1 := by
  cases parent with
  | none => simp [push]
  | some p => simp [push]

@[simp] theorem length_pushAll (a : Arena) (parents : List (Option Nat)) :
    (a.pushAll parents).length = a.length + parents.length := by
  induction parents generalizing a with
  | nil => rfl
  | cons parent parents ih =>
    have hrest := ih (a.push parent)
    rw [length_push] at hrest
    rw [List.length_cons, ← Nat.add_assoc, Nat.add_right_comm]
    exact hrest

def grow (parent : Option Nat) (f : Forest) (a : Arena) : Arena :=
  a.pushAll (f.parents parent a.length)

@[simp] theorem grow_nil (parent : Option Nat) (a : Arena) : a.grow parent .nil = a := rfl

theorem grow_branch (parent : Option Nat) (below rest : Forest) (a : Arena) :
    a.grow parent (.branch below rest) =
      ((a.push parent).grow (some a.length) below).grow parent rest := by
  have hlength : ((a.push parent).grow (some a.length) below).length =
      a.length + 1 + below.size := by
    rw [grow, length_pushAll, length_push, Forest.length_parents]
  rw [grow, grow, hlength, grow, length_push, Forest.parents]
  simp only [pushAll, List.cons_append, List.foldl_cons, List.foldl_append]

end Arena

/-! ## Cursors -/

structure Place where
  below : Forest
  behind : Forest
deriving Repr, DecidableEq

/-- The place of a node, with the trees below it and those of its later siblings, and the places of
the nodes above it from the inside out. -/
structure Cursor where
  here : Place
  above : List Place
deriving Repr, DecidableEq

namespace Cursor

def firstChild? (c : Cursor) : Option Cursor :=
  match c.here.below with
  | .nil => none
  | .branch below behind => some ⟨⟨below, behind⟩, c.here :: c.above⟩

def nextSibling? (c : Cursor) : Option Cursor :=
  match c.here.behind with
  | .nil => none
  | .branch below behind => some ⟨⟨below, behind⟩, c.above⟩

def parent? (c : Cursor) : Option Cursor :=
  match c.above with
  | [] => none
  | place :: above => some ⟨place, above⟩

end Cursor

inductive CopyPhase where
  | enter
  | leave
  | done
deriving Repr, DecidableEq

/-- A copy under way, with the indices of the node at the cursor and of the nodes above it. -/
structure Copy where
  arena : Arena
  path : List Nat
  cursor : Cursor
  phase : CopyPhase
deriving Repr, DecidableEq

namespace Copy

def start (below : Forest) : Copy := ⟨Arena.push [] none, [0], ⟨⟨below, .nil⟩, []⟩, .enter⟩

def reach (arena : Arena) (path : List Nat) (cursor : Cursor) : Copy :=
  ⟨arena.push path.head?, arena.length :: path, cursor, .enter⟩

def step (s : Copy) : Copy :=
  match s.phase with
  | .enter =>
    match s.cursor.firstChild? with
    | some child => reach s.arena s.path child
    | none => { s with phase := .leave }
  | .leave =>
    match s.cursor.nextSibling? with
    | some sibling => reach s.arena s.path.tail sibling
    | none =>
      match s.cursor.parent? with
      | some parent => { s with path := s.path.tail, cursor := parent }
      | none => { s with path := s.path.tail, phase := .done }
  | .done => s

def finish : List Nat → List Place → Arena → Arena
  | _, [], a => a
  | path, place :: above, a => finish path.tail above (a.grow path.tail.head? place.behind)

/-- The arena once the cursor has left the root. -/
def completed (s : Copy) : Arena :=
  match s.phase with
  | .enter => finish s.path (s.cursor.here :: s.cursor.above)
      (s.arena.grow s.path.head? s.cursor.here.below)
  | .leave => finish s.path (s.cursor.here :: s.cursor.above) s.arena
  | .done => s.arena

def leaving : List Place → Nat
  | [] => 0
  | place :: above => 2 * place.behind.size + 1 + leaving above

/-- How many steps are left: two for each node that is still to be reached, one to leave the node at
the cursor and each one above it, and one more if the node has just been entered. -/
def remaining (s : Copy) : Nat :=
  match s.phase with
  | .enter => 2 * s.cursor.here.below.size + 1 + leaving (s.cursor.here :: s.cursor.above)
  | .leave => leaving (s.cursor.here :: s.cursor.above)
  | .done => 0

theorem completed_step (s : Copy) : s.step.completed = s.completed := by
  obtain ⟨arena, path, ⟨⟨below, behind⟩, above⟩, phase⟩ := s
  cases phase with
  | enter =>
    cases below with
    | nil => simp [step, completed, Cursor.firstChild?]
    | branch below rest =>
      simp [step, completed, Cursor.firstChild?, reach, finish, Arena.grow_branch]
  | leave =>
    cases behind with
    | nil =>
      cases above with
      | nil => simp [step, completed, Cursor.nextSibling?, Cursor.parent?, finish]
      | cons place above => simp [step, completed, Cursor.nextSibling?, Cursor.parent?, finish]
    | branch below' rest =>
      simp [step, completed, Cursor.nextSibling?, reach, finish, Arena.grow_branch]
  | done => rfl

theorem remaining_step (s : Copy) : s.step.remaining = s.remaining - 1 := by
  obtain ⟨arena, path, ⟨⟨below, behind⟩, above⟩, phase⟩ := s
  cases phase with
  | enter =>
    cases below with
    | nil => simp [step, remaining, Cursor.firstChild?, Forest.size]
    | branch below rest =>
      simp only [step, remaining, Cursor.firstChild?, reach, Forest.size, leaving]
      omega
  | leave =>
    cases behind with
    | nil =>
      cases above with
      | nil => simp [step, remaining, leaving, Cursor.nextSibling?, Cursor.parent?, Forest.size]
      | cons place above =>
        simp [step, remaining, leaving, Cursor.nextSibling?, Cursor.parent?, Forest.size]
    | branch below' rest =>
      simp only [step, remaining, Cursor.nextSibling?, reach, Forest.size, leaving]
      omega
  | done => rfl

theorem phase_of_remaining {s : Copy} (h : s.remaining = 0) : s.phase = .done := by
  obtain ⟨arena, path, cursor, phase⟩ := s
  cases phase with
  | enter => simp [remaining] at h
  | leave => simp [remaining, leaving] at h
  | done => rfl

/-- After the steps that were left the copy is done, and the arena is complete. -/
theorem iterate_step {n : Nat} {s : Copy} (hn : s.remaining ≤ n) :
    (step^[n] s).phase = .done ∧ (step^[n] s).arena = s.completed := by
  obtain ⟨hsame, hnone⟩ := iterate_of_measure step (fun s' => s'.completed = s.completed) remaining
    (fun s' hs' => (completed_step s').trans hs') (fun s' _ => (remaining_step s').le) rfl hn
  have hdone := phase_of_remaining hnone
  rw [completed, hdone] at hsame
  exact ⟨hdone, hsame⟩

theorem remaining_start (below : Forest) : (start below).remaining = 2 * (below.size + 1) := by
  simp only [start, remaining, leaving, Forest.size]
  omega

theorem completed_start (below : Forest) :
    (start below).completed = Arena.pushAll [] ((Forest.branch below .nil).parents none 0) := by
  have hgrow := Arena.grow_branch none below .nil []
  rw [Arena.grow_nil] at hgrow
  exact hgrow.symm

end Copy

/-! ## Children -/

namespace Tree
variable {t : Tree}

/-- The links between the first nodes of a tree. -/
def links (t : Tree) (n : Nat) : Arena :=
  (List.range n).map fun i =>
    ⟨t.parent? i, (List.range n).filter fun j => t.parent? j == some i⟩

theorem filter_parent_succ (t : Tree) (n i : Nat) :
    ((List.range (n + 1)).filter fun j => t.parent? j == some i) =
      ((List.range n).filter fun j => t.parent? j == some i) ++
        if t.parent? n = some i then [n] else [] := by
  rw [List.range_succ, List.filter_append]
  by_cases hp : t.parent? n = some i
  · simp [hp]
  · simp [hp]

theorem Rooted.links_succ (h : t.Rooted) (n : Nat) :
    t.links (n + 1) = (t.links n).push (t.parent? n) := by
  -- nothing in front of the new node is below it
  have hnew : ((List.range n).filter fun j => t.parent? j == some n) = [] := by
    refine List.filter_eq_nil_iff.mpr fun j hj hp => ?_
    have hlt := (h.lt_of_parent (eq_of_beq hp)).1
    rw [List.mem_range] at hj
    omega
  have hlast : t.links (n + 1) = ((List.range n).map fun i =>
      ⟨t.parent? i, (List.range (n + 1)).filter fun j => t.parent? j == some i⟩) ++
        [⟨t.parent? n, []⟩] := by
    have hself : t.parent? n ≠ some n := fun hp => absurd (h.lt_of_parent hp).1 (by omega)
    rw [links, List.range_succ, List.map_append, List.map_singleton, ← List.range_succ,
      filter_parent_succ, hnew, if_neg hself]
    rfl
  rw [hlast]
  cases hp : t.parent? n with
  | none => simp [Arena.push, links, filter_parent_succ, hp]
  | some p =>
    have hlt := (h.lt_of_parent hp).1
    apply List.ext_getElem
    · simp [Arena.push, links]
    · intro i hi _
      have hle : i ≤ n := by simpa [Nat.lt_succ_iff] using hi
      by_cases hip : p = i
      · subst hip
        simp [Arena.push, links, filter_parent_succ, hp, hlt]
      · rcases Nat.lt_or_eq_of_le hle with hin | rfl
        · simp [Arena.push, links, filter_parent_succ, hp, hip, hin]
        · simp [Arena.push, links, hip]

theorem Rooted.links_eq_pushAll (h : t.Rooted) (n : Nat) :
    t.links n = Arena.pushAll [] ((List.range n).map t.parent?) := by
  induction n with
  | zero => rfl
  | succ n ih =>
    rw [h.links_succ, ih, List.range_succ, List.map_append, List.map_singleton, Arena.pushAll,
      Arena.pushAll, List.foldl_append]
    rfl

end Tree
end SourceChunking
