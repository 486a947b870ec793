import InterfaceSchema.FileTree.Access
import Mathlib.Data.List.Basic
import Mathlib.Tactic.Common

/-!
# What stands at a place

A tree as it is seen from outside: for every place, the bytes of the file there, or that there is a
directory, or nothing. Following a path and writing a file depend on this alone, and a file that is
written changes it at one place.

## Main definitions

* `FileTree.at?` — what stands at a place.
-/

namespace InterfaceSchema

/-- What a node is, without what a directory holds: the bytes of a file, or `none`. -/
def Node.content? : Node → Option (List UInt8)
  | .file content => some content
  | .directory _ => none

/-- What stands at a place: the bytes of a file, or `none` for a directory. -/
def Node.at? (node : Node) (place : Location) : Option (Option (List UInt8)) :=
  (node.get? place).map Node.content?

/-- What stands at a place. -/
def FileTree.at? (t : FileTree) (place : Location) : Option (Option (List UInt8)) :=
  t.top.at? place

namespace Node

theorem get?_append (node : Node) (place more : Location) :
    node.get? (place ++ more) = (node.get? place).bind (·.get? more) := by
  induction place generalizing node with
  | nil => rfl
  | cons name rest ih =>
    rw [List.cons_append, get?, get?, Option.bind_assoc]
    exact Option.bind_congr fun child _ => ih child

theorem at?_cons (node : Node) (name : String) (rest : Location) :
    node.at? (name :: rest) = (node.child? name).bind (·.at? rest) := by
  rw [at?, get?, Option.map_bind]
  rfl

/-- There is a directory in front of everything else. -/
theorem at?_eq_none_of_cons {node : Node} {name : String} {rest : Location}
    {found : Option (List UInt8)} (h : node.at? (name :: rest) = some found) :
    node.at? [] = some none := by
  cases node with
  | file content => cases h
  | directory entries => rfl

theorem eq_directory_of_at? {node : Node} (h : node.at? [] = some none) :
    ∃ entries, node = .directory entries := by
  cases node with
  | file content => cases h
  | directory entries => exact ⟨entries, rfl⟩

theorem at?_of_ne_directory {node : Node} (h : node.at? [] ≠ some none) (name : String)
    (rest : Location) : node.at? (name :: rest) = none := by
  cases hfound : node.at? (name :: rest) with
  | none => rfl
  | some found => exact absurd (at?_eq_none_of_cons hfound) h

theorem at?_directory_cons (entries : FieldMap Node) (name : String) (rest : Location) :
    (Node.directory entries).at? (name :: rest) = (entries.get? name).bind (·.at? rest) :=
  at?_cons _ name rest

theorem at?_insert_self (entries : FieldMap Node) (name : String) (new : Node) (rest : Location) :
    (Node.directory (entries.insert name new)).at? (name :: rest) = new.at? rest := by
  rw [at?_directory_cons, FieldMap.get?_insert, if_pos rfl, Option.bind_some]

theorem at?_insert_of_ne (entries : FieldMap Node) {name k : String} (hne : name ≠ k) (new : Node)
    (rest : Location) : (Node.directory (entries.insert name new)).at? (k :: rest) =
      (Node.directory entries).at? (k :: rest) := by
  rw [at?_directory_cons, at?_directory_cons, FieldMap.get?_insert, if_neg hne]

/-- Nothing stands below a place where there is no directory. -/
theorem at?_below_of_ne_directory {node : Node} {name : String}
    (hfree : node.at? [name] ≠ some none) (k : String) (rest : Location) :
    node.at? (name :: k :: rest) = none := by
  rw [at?_cons, Option.bind_eq_none_iff]
  intro child hchild
  refine at?_of_ne_directory ?_ k rest
  rwa [at?_cons, hchild, Option.bind_some] at hfree

/-- Putting a node that holds nothing into a directory, in a place where there is no directory,
changes what stands there and nothing else. -/
theorem at?_put {node new : Node} {dir : Location} {name : String}
    (hnew : ∀ k rest, new.at? (k :: rest) = none) (hdir : node.at? dir = some none)
    (hfree : node.at? (dir ++ [name]) ≠ some none) (place : Location) :
    (node.put (dir ++ [name]) new).at? place =
      if place = dir ++ [name] then new.at? [] else node.at? place := by
  induction dir generalizing node place with
  | nil =>
    obtain ⟨entries, rfl⟩ := eq_directory_of_at? hdir
    rw [List.nil_append] at hfree ⊢
    rcases place with _ | ⟨k, rest⟩
    · rfl
    by_cases hk : name = k
    · subst hk
      rw [put, at?_insert_self]
      cases rest with
      | nil => rw [if_pos rfl]; rfl
      | cons k' rest => rw [if_neg (by simp), at?_below_of_ne_directory hfree, put, hnew]
    · rw [put, at?_insert_of_ne _ hk, if_neg (by simp [Ne.symm hk])]
  | cons d dir ih =>
    obtain ⟨entries, rfl⟩ := eq_directory_of_at? (at?_eq_none_of_cons hdir)
    rcases place with _ | ⟨k, rest⟩
    · rfl
    rw [List.cons_append] at hfree ⊢
    by_cases hk : d = k
    · subst hk
      rw [at?_directory_cons] at hdir hfree
      obtain ⟨child, hchild, hsub⟩ := Option.bind_eq_some_iff.1 hdir
      rw [hchild, Option.bind_some] at hfree
      rw [put, at?_insert_self, at?_directory_cons, hchild, Option.getD_some, Option.bind_some,
        ih hsub hfree rest]
      simp only [List.cons.injEq, true_and]
    · rw [put, at?_insert_of_ne _ hk, if_neg (by simp [Ne.symm hk])]

end Node

namespace FileTree

variable {t : FileTree}

theorem directoryAt_eq (t : FileTree) (place : Location) :
    t.directoryAt place = decide (t.at? place = some none) := by
  rw [directoryAt, at?, Node.at?]
  cases t.top.get? place with
  | none => rfl
  | some node => cases node <;> rfl

theorem isSome_get? (t : FileTree) (place : Location) :
    (t.top.get? place).isSome = (t.at? place).isSome := by
  rw [at?, Node.at?, Option.isSome_map]

/-- Above everything that stands in a tree there are directories. -/
theorem directoryAt_of_append {place more : Location} (h : t.directoryAt (place ++ more) = true) :
    t.directoryAt place = true := by
  rw [directoryAt_eq, decide_eq_true_iff] at h ⊢
  cases more with
  | nil => simpa using h
  | cons name rest =>
    rw [at?, Node.at?, Node.get?_append] at h
    rw [at?, Node.at?]
    cases hnode : t.top.get? place with
    | none => simp [hnode] at h
    | some node =>
      rw [hnode, Option.bind_some] at h
      exact Node.at?_eq_none_of_cons h

theorem directoryAt_dropLast {place : Location} (h : t.directoryAt place = true) :
    t.directoryAt place.dropLast = true := by
  rcases List.eq_nil_or_concat' place with rfl | ⟨front, name, rfl⟩
  · exact h
  · rw [List.dropLast_concat]
    exact directoryAt_of_append h

/-- Writing a file into a directory, in a place where there is no directory, changes what stands
there and nothing else. -/
theorem at?_putAt_file {dir : Location} {name : String} (hdir : t.directoryAt dir = true)
    (hfree : t.directoryAt (dir ++ [name]) = false) (content : List UInt8) (place : Location) :
    (t.putAt (dir ++ [name]) (.file content)).at? place =
      if place = dir ++ [name] then some (some content) else t.at? place := by
  rw [directoryAt_eq, decide_eq_true_iff] at hdir
  rw [directoryAt_eq, decide_eq_false_iff_not] at hfree
  exact Node.at?_put (fun _ _ => rfl) hdir hfree place

/-- Making a directory in another, in a place where nothing stands, changes what stands there and
nothing else. -/
theorem at?_putAt_emptyDirectory {dir : Location} {name : String}
    (hdir : t.directoryAt dir = true) (hfree : t.at? (dir ++ [name]) = none) (place : Location) :
    (t.putAt (dir ++ [name]) .emptyDirectory).at? place =
      if place = dir ++ [name] then some none else t.at? place := by
  rw [directoryAt_eq, decide_eq_true_iff] at hdir
  refine Node.at?_put (fun _ _ => rfl) hdir ?_ place
  rw [at?] at hfree
  simp [hfree]

/-! ## Following names -/

theorem walk_cons (t : FileTree) (place : Location) (name : String) (rest : List String) :
    t.walk place (name :: rest) =
      if t.directoryAt place = false then .error .notADirectory
      else if name = "." then t.walk place rest
      else if name = ".." then t.walk place.dropLast rest
      else if nameLimit < (utf8 name).length then .error .nameTooLong
      else if (t.at? (place ++ [name])).isSome then t.walk (place ++ [name]) rest
      else .error .notFound := by
  rw [walk, isSome_get?]
  cases t.directoryAt place <;> rfl

/-- A way is followed in two parts, the second from where the first leads. -/
theorem walk_append (t : FileTree) (place : Location) (names more : List String) :
    t.walk place (names ++ more) = (t.walk place names).bind (t.walk · more) := by
  induction names generalizing place with
  | nil => rfl
  | cons name rest ih =>
    rw [List.cons_append, walk_cons, walk_cons]
    split_ifs
    · rfl
    · exact ih place
    · exact ih place.dropLast
    · rfl
    · exact ih (place ++ [name])
    · rfl

/-- A way that leads somewhere leads there in another tree too, if this has the directories and the
entries that the way passes. -/
theorem walk_of_walk {now : FileTree} {names : List String} {place last : Location}
    (hwalk : t.walk place names = .ok last)
    (hdir : ∀ front q, front <+: names → t.walk place front = .ok q →
      t.directoryAt q = true → now.directoryAt q = true)
    (hsome : ∀ front q, front <+: names → t.walk place front = .ok q →
      (t.at? q).isSome = true → (now.at? q).isSome = true) :
    now.walk place names = .ok last := by
  induction names generalizing place with
  | nil => exact hwalk
  | cons name rest ih =>
    have hsplit (s : FileTree) (more : List String) : s.walk place (name :: more) =
        (s.walk place [name]).bind (s.walk · more) := s.walk_append place [name] more
    rw [hsplit] at hwalk
    cases hnext : t.walk place [name] with
    | error reason =>
      rw [hnext] at hwalk
      cases hwalk
    | ok next =>
      rw [hnext] at hwalk
      have hnow : now.walk place [name] = .ok next := by
        have hhere := hdir [] place List.nil_prefix rfl
        have hthere := hsome [name] next (by simp) hnext
        rw [walk_cons] at hnext ⊢
        split_ifs at hnext with hd hdot hup hlong hs
        all_goals rw [if_neg (by simpa using hhere (by simpa using hd))]
        · rw [if_pos hdot]
          exact hnext
        · rw [if_neg hdot, if_pos hup]
          exact hnext
        · cases hnext
          rw [if_neg hdot, if_neg hup, if_neg hlong, if_pos (hthere hs)]
          rfl
      rw [hsplit, hnow]
      refine ih hwalk (fun front q hfront hq => ?_) fun front q hfront hq => ?_
      · exact hdir (name :: front) q (by simpa using hfront) (by rwa [hsplit, hnext])
      · exact hsome (name :: front) q (by simpa using hfront) (by rwa [hsplit, hnext])

/-- The end of a way is a directory, or it has the last name of the way. -/
theorem directoryAt_or_getLast?_of_walk {names : List String} (hne : names ≠ [])
    {place last : Location} (h : t.walk place names = .ok last) :
    t.directoryAt last = true ∨ last.getLast? = names.getLast? := by
  induction names generalizing place with
  | nil => exact absurd rfl hne
  | cons name rest ih =>
    rw [walk_cons] at h
    by_cases hrest : rest = []
    · subst hrest
      split_ifs at h with hdir hhere hup hlong hsome
      · cases h
        exact .inl (by simpa using hdir)
      · cases h
        exact .inl (directoryAt_dropLast (by simpa using hdir))
      · cases h
        exact .inr (by simp)
    · have hlast : (name :: rest).getLast? = rest.getLast? := by
        obtain ⟨next, more, rfl⟩ := List.exists_cons_of_ne_nil hrest
        rfl
      rw [hlast]
      split_ifs at h with hdir hhere hup hlong hsome
      · exact ih hrest h
      · exact ih hrest h
      · exact ih hrest h

end FileTree

end InterfaceSchema
