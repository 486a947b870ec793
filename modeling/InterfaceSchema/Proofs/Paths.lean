import InterfaceSchema.Path
import InterfaceSchema.Proofs.Cutting

/-!
# Names in paths

The names that a path is made of, when paths are put together, and the endings of paths.

## Main definitions

* `Path.names` — the names in the characters of a path.
* `Path.lead` — a path as it stands in front of a relative one.
* `IsFileName` — names that mean an entry of the directory in front of them.
-/

namespace InterfaceSchema

/-- A name of an entry: without slashes, and neither empty nor dots that mean a directory. -/
structure IsFileName (name : String) : Prop where
  single : '/' ∉ name.toList
  nonempty : name ≠ ""
  notHere : name ≠ "."
  notUp : name ≠ ".."

namespace Path

/-- The names between slashes. -/
def names (cs : List Char) : List String :=
  ((cs.splitOn '/').filter (!·.isEmpty)).map String.ofList

theorem segments_eq (p : Path) : p.segments = names p.text.toList := by
  rw [segments, names, splitAt_eq_splitOn]

@[simp] theorem names_nil : names [] = [] := rfl

theorem names_append_cons (cs ds : List Char) : names (cs ++ '/' :: ds) = names cs ++ names ds :=
  words_append_cons '/' cs ds

theorem names_of_not_mem {cs : List Char} (h : '/' ∉ cs) (hne : cs ≠ []) :
    names cs = [String.ofList cs] :=
  words_of_not_mem h hne

/-! ## Putting paths together -/

/-- A path as it stands in front of a relative one: with a slash at its end, unless it is empty. -/
def lead (p : Path) : List Char :=
  if p.text.isEmpty || p.text.toList.getLast? == some '/' then p.text.toList
  else p.text.toList ++ ['/']

theorem isAbsolute_eq_false {name : String} (h : '/' ∉ name.toList) :
    (Path.mk name).isAbsolute = false := by
  cases hcs : name.toList with
  | nil => simp [isAbsolute, hcs]
  | cons c cs =>
    rw [hcs, List.mem_cons, not_or] at h
    simpa [isAbsolute, hcs] using Ne.symm h.1

theorem toList_join_of_relative {rest : String} (h : (Path.mk rest).isAbsolute = false) (p : Path) :
    (p.join rest).text.toList = p.lead ++ rest.toList := by
  rw [join, h, lead]
  split_ifs <;> simp_all

/-- The names of a path in front of another stay as they are. -/
theorem names_lead_append (p : Path) (cs : List Char) :
    names (p.lead ++ cs) = p.segments ++ names cs := by
  rw [lead, segments_eq]
  split_ifs with h
  · rcases List.eq_nil_or_concat' p.text.toList with hnil | ⟨front, c, hlast⟩
    · rw [hnil]
      rfl
    · have hc : c = '/' := by
        have hne : p.text ≠ "" := by
          intro he
          simp [he] at hlast
        simpa [hlast, hne] using h
      rw [hlast, hc, List.append_assoc, List.singleton_append, names_append_cons, names_append_cons,
        names_nil, List.append_nil]
  · rw [List.append_assoc, List.singleton_append, names_append_cons]

theorem isAbsolute_join_of_relative {rest : String} (h : (Path.mk rest).isAbsolute = false)
    (p : Path) : (p.join rest).isAbsolute = p.isAbsolute := by
  have hrest := h
  rw [isAbsolute] at hrest
  rw [isAbsolute, toList_join_of_relative h, lead, isAbsolute]
  cases hp : p.text.toList with
  | nil =>
    have he : p.text = "" := by simpa using hp
    simpa [he] using hrest
  | cons c cs => split_ifs <;> simp

/-- A path without slashes adds one name to a path in front of it. -/
theorem segments_join_of_not_mem {rest : String} (h : '/' ∉ rest.toList) (hne : rest ≠ "")
    (p : Path) : (p.join rest).segments = p.segments ++ [rest] := by
  rw [segments_eq, toList_join_of_relative (isAbsolute_eq_false h), names_lead_append,
    names_of_not_mem h (by simpa using hne), String.ofList_toList]

section

variable {name : String} (h : IsFileName name) (p : Path)
include h

theorem toList_join : (p.join name).text.toList = p.lead ++ name.toList :=
  toList_join_of_relative (isAbsolute_eq_false h.single) p

/-- The names of an entry's path are those of the directory's path and the entry's own. -/
theorem segments_join : (p.join name).segments = p.segments ++ [name] :=
  segments_join_of_not_mem h.single h.nonempty p

theorem isAbsolute_join : (p.join name).isAbsolute = p.isAbsolute :=
  isAbsolute_join_of_relative (isAbsolute_eq_false h.single) p

theorem getLast?_join : (p.join name).text.toList.getLast? = name.toList.getLast? := by
  rw [toList_join h, List.getLast?_append_of_ne_nil _ (by simpa using h.nonempty)]

end

/-- Entries of one directory have different paths. -/
theorem eq_of_join_eq {dir : Path} {name other : String} (hname : IsFileName name)
    (hother : IsFileName other) (h : dir.join name = dir.join other) : name = other := by
  have hsegments : dir.segments ++ [name] = dir.segments ++ [other] := by
    rw [← segments_join hname, ← segments_join hother, h]
  simpa using hsegments

/-! ## Parts -/

/-- The parts of an entry's path are those of the directory's path and the entry's own. -/
theorem components_join {name : String} (h : IsFileName name) (p : Path) :
    (p.join name).components = p.components ++ [.normal name] := by
  have hname : segmentComponent name = some (.normal name) := by
    rw [segmentComponent, if_neg h.notHere, if_neg h.notUp]
  have hlast (front : List String) : (front ++ [name]).filterMap segmentComponent =
      front.filterMap segmentComponent ++ [.normal name] := by
    simp [hname]
  rw [components, components, isAbsolute_join h, segments_join h]
  cases p.isAbsolute with
  | true => simp [hname]
  | false =>
    simp only [Bool.false_eq_true, if_false]
    rcases p.segments with _ | ⟨first, rest⟩
    · simp only [List.nil_append]
      split
      · next hhere => exact absurd (List.cons.inj hhere).1 h.notHere
      · exact hlast []
    · rw [List.cons_append]
      split
      · next hhere =>
        obtain ⟨rfl, rfl⟩ := List.cons.inj hhere
        simp [hname]
      · next hother =>
        split
        · next hhere => exact absurd (congrArg (· ++ [name]) hhere) (hother _)
        · exact hlast (first :: rest)

theorem fileName?_of_isFileName {name : String} (h : IsFileName name) :
    (Path.mk name).fileName? = some name := by
  have halone : Path.mk name = (Path.mk "").join name := by
    rw [join, isAbsolute_eq_false h.single]
    simp
  rw [fileName?, halone, components_join h, List.getLast?_concat]

/-! ## Endings -/

/-- A path that is not empty and does not end in a slash ends in its last name. -/
theorem exists_last_name {p : Path} (hne : p.text ≠ "")
    (hslash : p.text.toList.getLast? ≠ some '/') :
    ∃ name, p.segments.getLast? = some name ∧ name.toList <:+ p.text.toList := by
  obtain ⟨name, hname, -, hsuffix⟩ := exists_getLast?_words (by simpa using hne) hslash
  refine ⟨name, ?_, hsuffix⟩
  rw [segments_eq]
  exact hname

end Path

end InterfaceSchema
