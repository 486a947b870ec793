import InterfaceSchema.Proofs.Insertion
import InterfaceSchema.Proofs.Outputs

/-!
# Writing over files

What a place of a tree holds after several writes is what was written there last, and writes at
different places do not mind each other. So files that are written once more with the bytes they
have leave the tree as it is, entry by entry, whatever has been written on the way there.

## Main definitions

* `Node.putFiles` — a tree with files put into it one after the other.
* `FileTree.WriteSeries` — a tree after a series of JSON files has been written.
-/

namespace InterfaceSchema

/-! ## The last of several outputs -/

/-- What was written later counts before what was written earlier. -/
theorem lastOutput?_append (earlier later : List Output) (place : Location) :
    lastOutput? (earlier ++ later) place =
      (lastOutput? later place).or (lastOutput? earlier place) := by
  rw [lastOutput?, List.reverse_append, List.lookup_append, ← lastOutput?, ← lastOutput?]

theorem lastOutput?_singleton (o : Output) (place : Location) :
    lastOutput? [o] place = if place = o.1 then some o.2 else none :=
  lastOutput?_concat [] o.1 o.2 place

theorem lastOutput?_cons (o : Output) (rest : List Output) (place : Location) :
    lastOutput? (o :: rest) place =
      (lastOutput? rest place).or (if place = o.1 then some o.2 else none) := by
  rw [← lastOutput?_singleton]
  exact lastOutput?_append [o] rest place

theorem lastOutput?_eq_none_iff {outputs : List Output} {place : Location} :
    lastOutput? outputs place = none ↔ place ∉ outputs.map Prod.fst := by
  simp only [lastOutput?, List.lookup_eq_none_iff, List.mem_reverse, bne_iff_ne, List.mem_map,
    not_exists, not_and, ne_comm (a := place), ne_eq]

theorem exists_lastOutput?_of_mem {outputs : List Output} {o : Output} (h : o ∈ outputs) :
    ∃ content, lastOutput? outputs o.1 = some content := by
  refine Option.ne_none_iff_exists'.1 fun hnone => ?_
  exact lastOutput?_eq_none_iff.1 hnone (List.mem_map_of_mem h)

namespace Node

/-! ## Putting nodes -/

/-- Of two nodes put at one place, the second stays. -/
theorem put_put (node : Node) (place : Location) (first second : Node) :
    (node.put place first).put place second = node.put place second := by
  induction place generalizing node with
  | nil => rfl
  | cons name rest ih =>
    cases node with
    | file content => rfl
    | directory entries =>
      simp only [put, FieldMap.get?_insert, if_true, Option.getD_some, ih, FieldMap.insert_insert]

/-- Putting a node where it is changes nothing. -/
theorem put_of_get? {node new : Node} {place : Location} (h : node.get? place = some new) :
    node.put place new = node := by
  induction place generalizing node with
  | nil => exact (Option.some.inj h).symm
  | cons name rest ih =>
    cases node with
    | file content => rfl
    | directory entries =>
      obtain ⟨child, hchild, hrest⟩ := Option.bind_eq_some_iff.1 h
      change entries.get? name = some child at hchild
      rw [put, hchild, Option.getD_some, ih hrest, FieldMap.insert_of_get? hchild]

theorem get?_eq_file_iff {node : Node} {place : Location} {content : List UInt8} :
    node.get? place = some (.file content) ↔ node.at? place = some (some content) := by
  rw [at?]
  cases node.get? place with
  | none => simp
  | some found => cases found <;> simp [content?]

/-- A place below which a file stands is in a directory that holds its first name. -/
theorem exists_of_file {node : Node} {name : String} {rest : Location} {content : List UInt8}
    (h : node.get? (name :: rest) = some (.file content)) :
    ∃ entries child, node = .directory entries ∧ entries.get? name = some child ∧
      child.get? rest = some (.file content) := by
  cases node with
  | file bytes => cases h
  | directory entries =>
    obtain ⟨child, hchild, hrest⟩ := Option.bind_eq_some_iff.1 h
    exact ⟨entries, child, rfl, hchild, hrest⟩

/-- Files at two places may be replaced one before the other or the other way round. -/
theorem put_file_comm {node : Node} {p q : Location} {old old' : List UInt8}
    (hp : node.get? p = some (.file old)) (hq : node.get? q = some (.file old')) (hne : p ≠ q)
    (a b : List UInt8) : (node.put p (.file a)).put q (.file b) =
      (node.put q (.file b)).put p (.file a) := by
  induction p generalizing node q with
  | nil =>
    -- a file at the top is the whole tree, and there is no other place
    cases Option.some.inj hp
    cases q with
    | nil => exact absurd rfl hne
    | cons name rest => cases hq
  | cons k p ih =>
    obtain ⟨entries, child, rfl, hk, hchild⟩ := exists_of_file hp
    cases q with
    | nil => cases hq
    | cons l q =>
      obtain ⟨entries', child', heq, hl, hchild'⟩ := exists_of_file hq
      cases heq
      by_cases hkl : k = l
      · subst hkl
        rw [hk] at hl
        cases hl
        have hcomm := ih hchild hchild' fun h => hne (h ▸ rfl)
        simp only [put, FieldMap.get?_insert, if_true, hk, Option.getD_some,
          FieldMap.insert_insert, hcomm]
      · simp only [put, FieldMap.get?_insert, if_neg hkl, if_neg (Ne.symm hkl)]
        rw [FieldMap.insert_comm (FieldMap.mem_keys_of_get? hk) hkl]

/-- Whether a file stands at a place. -/
def HoldsFile (node : Node) (place : Location) : Prop :=
  ∃ content, node.get? place = some (.file content)

/-- Replacing a file takes none away. -/
theorem HoldsFile.put {node : Node} {p q : Location} (hp : node.HoldsFile p)
    (hq : node.HoldsFile q) (new : List UInt8) : (node.put p (.file new)).HoldsFile q := by
  obtain ⟨old, hp⟩ := hp
  obtain ⟨old', hq⟩ := hq
  induction p generalizing node q with
  | nil =>
    cases Option.some.inj hp
    cases q with
    | nil => exact ⟨new, rfl⟩
    | cons name rest => cases hq
  | cons k p ih =>
    obtain ⟨entries, child, rfl, hk, hchild⟩ := exists_of_file hp
    cases q with
    | nil => cases hq
    | cons l q =>
      obtain ⟨entries', child', heq, hl, hchild'⟩ := exists_of_file hq
      cases heq
      rw [HoldsFile, Node.put]
      simp only [get?, child?, FieldMap.get?_insert]
      by_cases hkl : k = l
      · subst hkl
        rw [hk] at hl
        cases hl
        rw [if_pos rfl, hk]
        exact ih hchild hchild'
      · rw [if_neg hkl, hl]
        exact ⟨old', hchild'⟩

/-! ## Putting series of files -/

/-- The tree with files put at their places, one after the other. -/
def putFiles (node : Node) (outputs : List Output) : Node :=
  outputs.foldl (fun n o => n.put o.1 (.file o.2)) node

theorem putFiles_cons (node : Node) (o : Output) (rest : List Output) :
    node.putFiles (o :: rest) = (node.put o.1 (.file o.2)).putFiles rest := rfl

/-- A replacement of a file does not count when the file is replaced again. -/
theorem putFiles_put_of_mem {node : Node} {place : Location} {outputs : List Output}
    (hplace : node.HoldsFile place) (houtputs : ∀ o ∈ outputs, node.HoldsFile o.1)
    (hmem : place ∈ outputs.map Prod.fst) (content : List UInt8) :
    (node.put place (.file content)).putFiles outputs = node.putFiles outputs := by
  induction outputs generalizing node with
  | nil => cases hmem
  | cons o rest ih =>
    obtain ⟨ho, hrest⟩ := List.forall_mem_cons.1 houtputs
    rw [putFiles_cons, putFiles_cons]
    by_cases heq : o.1 = place
    · rw [heq, put_put]
    · obtain ⟨old, hold⟩ := hplace
      obtain ⟨old', hold'⟩ := ho
      rw [put_file_comm hold hold' (Ne.symm heq)]
      have hkept : ∀ {p}, node.HoldsFile p → (node.put o.1 (.file o.2)).HoldsFile p :=
        fun hp => .put ⟨old', hold'⟩ hp o.2
      exact ih (hkept ⟨old, hold⟩) (fun o' ho' => hkept (hrest o' ho'))
        (by simpa [Ne.symm heq] using hmem)

/-- Files that end up with the bytes they have leave the tree as it is. -/
theorem putFiles_eq_self {node : Node} {outputs : List Output}
    (h : ∀ place content, lastOutput? outputs place = some content →
      node.get? place = some (.file content)) : node.putFiles outputs = node := by
  induction outputs with
  | nil => rfl
  | cons o rest ih =>
    have hrest : ∀ place content, lastOutput? rest place = some content →
        node.get? place = some (.file content) := fun place content hlast =>
      h place content (by rw [lastOutput?_cons, hlast, Option.some_or])
    have hfiles : ∀ o' ∈ rest, node.HoldsFile o'.1 := fun o' ho' => by
      obtain ⟨content, hlast⟩ := exists_lastOutput?_of_mem ho'
      exact ⟨content, hrest _ _ hlast⟩
    have ho : node.HoldsFile o.1 := by
      obtain ⟨content, hlast⟩ := exists_lastOutput?_of_mem (List.mem_cons_self (a := o) (l := rest))
      exact ⟨content, h _ _ hlast⟩
    rw [putFiles_cons]
    -- either the file is written once more and this write does not count, or it is the last one
    by_cases hmem : o.1 ∈ rest.map Prod.fst
    · rw [putFiles_put_of_mem ho hfiles hmem, ih hrest]
    · have hlast : lastOutput? (o :: rest) o.1 = some o.2 := by
        rw [lastOutput?_cons, lastOutput?_eq_none_iff.2 hmem, Option.none_or, if_pos rfl]
      rw [put_of_get? (h _ _ hlast), ih hrest]

end Node

namespace FileTree

/-! ## Series of writes -/

/-- What becomes of a tree when JSON files are written one after the other into the directory that
a path leads to, each in a place where there is no directory. -/
inductive WriteSeries (t : FileTree) (outDir : Path) : List Output → FileTree → Prop where
  | nil : t.WriteSeries outDir [] t
  | concat {outputs : List Output} {now : FileTree} {dir : Location} {stem : String}
    (h : t.WriteSeries outDir outputs now) (hfollow : t.follow outDir = .ok dir)
    (hdir : t.directoryAt dir = true) (hfree : t.directoryAt (dir ++ [stem ++ ".json"]) = false)
    (content : List UInt8) :
    t.WriteSeries outDir (outputs ++ [(dir ++ [stem ++ ".json"], content)])
      (now.putAt (dir ++ [stem ++ ".json"]) (.file content))

namespace WriteSeries

variable {t now : FileTree} {outDir : Path} {outputs : List Output}
  (h : t.WriteSeries outDir outputs now)
include h

/-- A tree holds what has been written in it. -/
theorem holds : t.Holds outDir outputs now := by
  induction h with
  | nil => exact t.holds_self outDir
  | concat h hfollow hdir hfree content ih => exact ih.putAt hfollow hdir hfree content

theorem top_eq : now.top = t.top.putFiles outputs := by
  induction h with
  | nil => rfl
  | concat h hfollow hdir hfree content ih =>
    rw [Node.putFiles, List.foldl_concat, ← Node.putFiles, ← ih]
    rfl

/-- A series of writes that changes nothing anywhere gives back the very tree. -/
theorem eq_self (hat : ∀ place, now.at? place = t.at? place) : now = t := by
  have htop : t.top.putFiles outputs = t.top := by
    refine Node.putFiles_eq_self fun place content hlast => ?_
    rw [Node.get?_eq_file_iff]
    have hplace := hat place
    rw [h.holds.at_eq, hlast] at hplace
    exact hplace.symm
  have hnow : now.top = t.top := h.top_eq.trans htop
  have hhere := h.holds.workingDirectory
  cases t
  cases now
  cases hnow
  cases hhere
  rfl

end WriteSeries

end FileTree

end InterfaceSchema
