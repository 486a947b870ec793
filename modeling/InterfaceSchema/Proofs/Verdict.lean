import InterfaceSchema.Proofs.Nodes
import InterfaceSchema.Proofs.Recovery
import InterfaceSchema.Schema.Draft07

/-!
# Verdicts on compiled interfaces

What the meta-schema finds in a compiled interface depends on the words that are types of members,
and on the names that lead to them. The walk through the document visits them in the order of these
names, so the first violation it meets is the least one. Index signatures are kept as text, and
required names are the keys of a map: neither is ever objected to.

## Main definitions

* `Leaf`, `Interface.leaves` — the words that are types of members, each with the names that lead
  to it.
* `IsFirstOffender` — the leaf that a refusal names.
* `Finds` — what a walk over some leaves has to find.
-/

namespace InterfaceSchema

/-! ## Leaves -/

/-- A word that is the type of a member, and the names that lead to it from the outermost level. -/
structure Leaf where
  path : List String
  token : String
  deriving DecidableEq, Repr

namespace Leaf

/-- The leaf as it is seen from one level further out. -/
def below (key : String) (l : Leaf) : Leaf := ⟨key :: l.path, l.token⟩

/-- The order of leaves by the names that lead to them: names are compared by their bytes, those
further out first. -/
def Before (l m : Leaf) : Prop :=
  l.path.map utf8 ≤ m.path.map utf8

instance (l m : Leaf) : Decidable (l.Before m) :=
  inferInstanceAs (Decidable (l.path.map utf8 ≤ m.path.map utf8))

theorem before_below {key : String} {l m : Leaf} (h : l.Before m) :
    (l.below key).Before (m.below key) :=
  List.cons_le_cons_iff.2 (.inr ⟨rfl, h⟩)

/-- Below different members, the order is the order of these members. -/
theorem before_below_of_lt {key other : String} (h : utf8 key < utf8 other) (l m : Leaf) :
    (l.below key).Before (m.below other) :=
  List.cons_le_cons_iff.2 (.inl h)

/-- Leaves that come one before the other both ways are reached by the same names. -/
theorem path_eq_of_before {l m : Leaf} (h : l.Before m) (h' : m.Before l) : l.path = m.path :=
  utf8_injective.list_map (List.le_antisymm h h')

end Leaf

mutual

/-- The leaves of an interface. Index signatures have none. -/
def Interface.leaves : Interface → List Leaf
  | ⟨_, ⟨members⟩, _⟩ => memberLeaves members

/-- The leaves of a type; a word is one itself. -/
def TypeExpr.leaves : TypeExpr → List Leaf
  | .named token => [⟨[], token⟩]
  | .object inner => inner.leaves

/-- The leaves of some members. -/
def memberLeaves : List (String × TypeExpr) → List Leaf
  | [] => []
  | (key, type) :: rest => type.leaves.map (·.below key) ++ memberLeaves rest

end

theorem mem_memberLeaves {members : List (String × TypeExpr)} {l : Leaf} :
    l ∈ memberLeaves members ↔ ∃ e ∈ members, ∃ m ∈ e.2.leaves, m.below e.1 = l := by
  induction members with
  | nil => simp [memberLeaves]
  | cons e rest ih =>
    rw [memberLeaves, List.mem_append, List.mem_map, ih, List.exists_mem_cons_iff]

/-- Whether no level of an interface has two members of one name. -/
def Interface.DistinctMembers (i : Interface) : Prop :=
  ∀ level ∈ i.levels, level.members.Distinct

instance (i : Interface) : Decidable i.DistinctMembers :=
  inferInstanceAs (Decidable (∀ level ∈ i.levels, level.members.keys.Nodup))

mutual

/-- The names that lead to a leaf lead to no other leaf. -/
theorem Interface.leaf_eq_of_path_eq : ∀ i : Interface, i.DistinctMembers →
    ∀ l ∈ i.leaves, ∀ m ∈ i.leaves, l.path = m.path → l = m
  | ⟨_, ⟨members⟩, _⟩, hi =>
    memberLeaf_eq_of_path_eq members (hi _ (Interface.mem_levels_self _))
      fun level hlevel => hi level (List.mem_cons_of_mem _ hlevel)

theorem TypeExpr.leaf_eq_of_path_eq : ∀ t : TypeExpr, (∀ level ∈ t.levels, level.members.Distinct) →
    ∀ l ∈ t.leaves, ∀ m ∈ t.leaves, l.path = m.path → l = m
  | .named token, _, l, hl, m, hm, _ => by
    rw [List.mem_singleton.1 hl, List.mem_singleton.1 hm]
  | .object inner, h, l, hl, m, hm, hpath => inner.leaf_eq_of_path_eq h l hl m hm hpath

theorem memberLeaf_eq_of_path_eq : ∀ members : List (String × TypeExpr),
    (members.map Prod.fst).Nodup → (∀ level ∈ memberLevels members, level.members.Distinct) →
      ∀ l ∈ memberLeaves members, ∀ m ∈ memberLeaves members, l.path = m.path → l = m
  | [], _, _, l, hl, _, _, _ => absurd hl List.not_mem_nil
  | (key, type) :: rest, hkeys, hlevels, l, hl, m, hm, hpath => by
    obtain ⟨hkey, hkeys⟩ := List.nodup_cons.1 hkeys
    obtain ⟨htype, hrest⟩ := forall_mem_memberLevels_cons hlevels
    -- a leaf further on has another name in front
    have hother : ∀ l' ∈ type.leaves, ∀ m' ∈ memberLeaves rest, (l'.below key).path ≠ m'.path := by
      intro l' _ m' hm' h
      obtain ⟨e, he, m'', _, rfl⟩ := mem_memberLeaves.1 hm'
      exact hkey (List.mem_map.2 ⟨e, he, (List.cons.inj h).1.symm⟩)
    simp only [memberLeaves, List.mem_append, List.mem_map] at hl hm
    rcases hl with ⟨l', hl', rfl⟩ | hl
    · rcases hm with ⟨m', hm', rfl⟩ | hm
      · rw [type.leaf_eq_of_path_eq htype l' hl' m' hm' (List.cons.inj hpath).2]
      · exact absurd hpath (hother l' hl' m hm)
    · rcases hm with ⟨m', hm', rfl⟩ | hm
      · exact absurd hpath.symm (hother m' hm' l hl)
      · exact memberLeaf_eq_of_path_eq rest hkeys hrest l hl m hm hpath

end

/-! ## Finding the first offender -/

/-- The leaf that a refusal names: of those whose word is no type of draft-07, the one that comes
before all others. -/
structure IsFirstOffender (leaves : List Leaf) (l : Leaf) : Prop where
  mem : l ∈ leaves
  offends : l.token ∉ simpleTypes
  first : ∀ m ∈ leaves, m.token ∉ simpleTypes → l.Before m

/-- What a walk over some leaves has to find: nothing if every word is a type, or else the first
offender. -/
inductive Finds (leaves : List Leaf) : Option Violation → Prop where
  | nothing (h : ∀ l ∈ leaves, l.token ∈ simpleTypes) : Finds leaves none
  | offender {l : Leaf} (h : IsFirstOffender leaves l) :
      Finds leaves (some (.unknownType (.string l.token)))

namespace Finds

variable {leaves others : List Leaf} {found : Option Violation}

/-- What is found depends on which leaves there are, not on how they are listed. -/
theorem of_mem_iff (h : Finds leaves found) (hmem : ∀ l, l ∈ leaves ↔ l ∈ others) :
    Finds others found := by
  cases h with
  | nothing h => exact .nothing fun l hl => h l ((hmem l).2 hl)
  | offender h =>
    exact .offender ⟨(hmem _).1 h.mem, h.offends, fun m hm => h.first m ((hmem m).2 hm)⟩

theorem word (token : String) : Finds [⟨[], token⟩]
    (if token ∈ simpleTypes then none else some (.unknownType (.string token))) := by
  split_ifs with htoken
  · exact .nothing (by simpa using htoken)
  · refine .offender (l := ⟨[], token⟩) ⟨List.mem_singleton_self _, htoken, ?_⟩
    intro m hm _
    rw [List.mem_singleton.1 hm]
    exact List.le_refl _

theorem below (h : Finds leaves found) (key : String) :
    Finds (leaves.map (·.below key)) found := by
  cases h with
  | nothing h => exact .nothing (List.forall_mem_map.2 h)
  | @offender l h =>
    refine .offender (l := l.below key) ⟨List.mem_map_of_mem h.mem, h.offends, ?_⟩
    exact List.forall_mem_map.2 fun m hm hoffends => Leaf.before_below (h.first m hm hoffends)

/-- Leaves that come before the others are walked over first. -/
theorem append {more : Option Violation} (h : Finds leaves found) (hmore : Finds others more)
    (hbefore : ∀ l ∈ leaves, ∀ m ∈ others, l.Before m) :
    Finds (leaves ++ others) (found.or more) := by
  cases h with
  | nothing h =>
    rw [Option.none_or]
    cases hmore with
    | nothing hmore => exact .nothing (List.forall_mem_append.2 ⟨h, hmore⟩)
    | offender hmore =>
      refine .offender ⟨List.mem_append_right _ hmore.mem, hmore.offends, ?_⟩
      exact List.forall_mem_append.2 ⟨fun m hm hoffends => absurd (h m hm) hoffends, hmore.first⟩
  | offender h =>
    refine .offender ⟨List.mem_append_left _ h.mem, h.offends, ?_⟩
    exact List.forall_mem_append.2 ⟨h.first, fun m hm _ => hbefore _ h.mem m hm⟩

/-- Members in the order of their names are walked over one after the other. -/
theorem members {check : TypeExpr → Option Violation} {members : List (String × TypeExpr)}
    (hsorted : members.Pairwise fun a b => utf8 a.1 < utf8 b.1)
    (h : ∀ e ∈ members, Finds e.2.leaves (check e.2)) :
    Finds (memberLeaves members) (members.findSome? fun e => check e.2) := by
  induction members with
  | nil => exact .nothing fun _ hl => absurd hl List.not_mem_nil
  | cons e rest ih =>
    obtain ⟨hfirst, hsorted⟩ := List.pairwise_cons.1 hsorted
    obtain ⟨he, hrest⟩ := List.forall_mem_cons.1 h
    have hbefore : ∀ l ∈ e.2.leaves.map (·.below e.1), ∀ m ∈ memberLeaves rest, l.Before m := by
      intro l hl m hm
      obtain ⟨l', -, rfl⟩ := List.mem_map.1 hl
      obtain ⟨e', he', m', -, rfl⟩ := mem_memberLeaves.1 hm
      exact Leaf.before_below_of_lt (hfirst e' he') l' m'
    have happend := (he.below e.1).append (ih hsorted hrest) hbefore
    rw [List.findSome?_cons]
    cases hcheck : check e.2 with
    | none => rwa [hcheck, Option.none_or] at happend
    | some v => rwa [hcheck, Option.some_or] at happend

theorem eq_none_iff (h : Finds leaves found) :
    found = none ↔ ∀ l ∈ leaves, l.token ∈ simpleTypes := by
  cases h with
  | nothing h => exact ⟨fun _ => h, fun _ => rfl⟩
  | offender h => exact ⟨nofun, fun hall => absurd (hall _ h.mem) h.offends⟩

theorem ne_repeatedRequired (h : Finds leaves found) (required : Json) :
    found ≠ some (.repeatedRequired required) := by
  cases h with
  | nothing _ => exact nofun
  | offender _ => exact nofun

/-- Where names lead to one leaf only, there is just one thing to find. -/
theorem unique (h : Finds leaves found) {also : Option Violation} (h' : Finds leaves also)
    (hleaves : ∀ l ∈ leaves, ∀ m ∈ leaves, l.path = m.path → l = m) : found = also := by
  cases h with
  | nothing h =>
    cases h' with
    | nothing _ => rfl
    | offender h' => exact absurd (h _ h'.mem) h'.offends
  | offender h =>
    cases h' with
    | nothing h' => exact absurd (h' _ h.mem) h.offends
    | offender h' =>
      have hpath := Leaf.path_eq_of_before (h.first _ h'.mem h'.offends)
        (h'.first _ h.mem h.offends)
      rw [hleaves _ h.mem _ h'.mem hpath]

theorem eq_some_iff (h : Finds leaves found)
    (hleaves : ∀ l ∈ leaves, ∀ m ∈ leaves, l.path = m.path → l = m) (v : Violation) :
    found = some v ↔ ∃ l, IsFirstOffender leaves l ∧ v = .unknownType (.string l.token) := by
  constructor
  · rintro rfl
    cases h with
    | @offender l h => exact ⟨l, h, rfl⟩
  · rintro ⟨l, hl, rfl⟩
    exact h.unique (.offender hl) hleaves

end Finds

/-! ## The walk through a document -/

namespace Json

theorem propertiesViolation?_eq (members : List (String × Json)) :
    propertiesViolation? members = (member? "properties" members).bind childrenViolation? := by
  induction members with
  | nil => rfl
  | cons e rest ih =>
    rw [propertiesViolation?, member?, ih]
    split <;> rfl

theorem membersViolation?_eq (members : List (String × Json)) :
    membersViolation? members = members.findSome? fun e => e.2.firstViolation? := by
  induction members with
  | nil => rfl
  | cons e rest ih =>
    rw [membersViolation?, List.findSome?_cons, ih]
    cases e.2.firstViolation? <;> rfl

theorem sortKeys_strings (names : List String) :
    (array (names.map .string)).sortKeys = .array (names.map .string) := by
  rw [sortKeys_array, List.map_map]
  rfl

theorem strings?_strings (names : List String) :
    (array (names.map .string)).strings? = some names := by
  change (names.map string).mapM string? = some names
  induction names with
  | nil => rfl
  | cons name rest ih => rw [List.map_cons, List.mapM_cons, ih]; rfl

/-- A node whose required names are distinct is refused for what is below it or for its type. -/
theorem firstViolation?_sortKeys {members : List (String × Json)} {type : String}
    (hkeys : (keys members).Nodup) (htype : member? "type" members = some (.string type))
    (hrequired : ∀ v ∈ member? "required" members,
      ∃ names : List String, names.Nodup ∧ v = .array (names.map .string)) :
    (object members).sortKeys.firstViolation? =
      ((member? "properties" members).bind fun v => v.sortKeys.childrenViolation?).or
        (if type ∈ simpleTypes then none else some (.unknownType (.string type))) := by
  have hsorted := member?_sortByKey hkeys
  have hno : requiredViolation? (sortByKey (members.map fun e => (e.1, e.2.sortKeys))) = none := by
    rw [requiredViolation?, hsorted]
    cases hmember : member? "required" members with
    | none => rfl
    | some v =>
      obtain ⟨names, hnames, rfl⟩ := hrequired v hmember
      rw [Option.map_some, sortKeys_strings]
      simp [strings?_strings, hnames]
  have hnode : typeViolation? (sortByKey (members.map fun e => (e.1, e.2.sortKeys))) =
      if type ∈ simpleTypes then none else some (.unknownType (.string type)) := by
    rw [typeViolation?, hsorted, htype]
    rfl
  rw [sortKeys_object, firstViolation?, propertiesViolation?_eq, hsorted, hno, hnode]
  cases member? "properties" members with
  | none => rfl
  | some v =>
    rw [Option.map_some, Option.bind_some, Option.bind_some]
    cases v.sortKeys.childrenViolation? <;> rfl

end Json

/-! ## Compiled interfaces -/

theorem compileMembers_eq (placement : SignaturePlacement) (members : List (String × TypeExpr)) :
    compileMembers placement members = members.map fun e => (e.1, e.2.compile placement) := by
  induction members with
  | nil => rfl
  | cons e rest ih => rw [compileMembers, ih, List.map_cons]

theorem keys_compileMembers (placement : SignaturePlacement) (members : List (String × TypeExpr)) :
    FieldMap.keys ⟨compileMembers placement members⟩ = members.map Prod.fst := by
  rw [FieldMap.keys, compileMembers_eq, List.map_map]
  rfl

/-- The first violation in the schema of a type. -/
def TypeExpr.violation? (placement : SignaturePlacement) (t : TypeExpr) : Option Violation :=
  (t.compile placement).toJson.sortKeys.firstViolation?

/-- The properties of compiled members are walked over in the order of their names. -/
theorem childrenViolation?_compileMembers (placement : SignaturePlacement)
    (members : List (String × TypeExpr)) :
    (Json.object (propertiesToJson
        (compileMembers placement members))).sortKeys.childrenViolation? =
      (sortByKey members).findSome? fun e => e.2.violation? placement := by
  have hsort := map_sortByKey (fun t => (TypeExpr.compile placement t).toJson.sortKeys) members
  rw [Json.sortKeys_object, propertiesToJson_eq, compileMembers_eq, List.map_map, List.map_map,
    Json.childrenViolation?]
  change Json.membersViolation? (sortByKey (members.map fun e => (e.1, _))) = _
  rw [← hsort, Json.membersViolation?_eq, List.findSome?_map]
  rfl

theorem PropertySchema.firstViolation?_sortKeys (p : PropertySchema) :
    p.toJson.sortKeys.firstViolation? =
      (p.properties.bind fun m =>
          (Json.object (propertiesToJson m.entries)).sortKeys.childrenViolation?).or
        (if p.type ∈ simpleTypes then none else some (.unknownType (.string p.type))) := by
  have hrequired : ∀ v ∈ Json.member? "required" p.members,
      ∃ names : List String, names.Nodup ∧ v = .array (names.map .string) := by
    rw [p.member?_required]
    exact fun v hv => nomatch hv
  rw [p.toJson_eq, Json.firstViolation?_sortKeys p.nodup_keys p.member?_type hrequired,
    p.member?_properties, Option.bind_map]
  rfl

theorem Schema.firstViolation?_value (s : Schema) (hrequired : s.required.Nodup) :
    s.value.firstViolation? =
      ((Json.object (propertiesToJson s.properties.entries)).sortKeys.childrenViolation?).or
        (if s.type ∈ simpleTypes then none else some (.unknownType (.string s.type))) := by
  have hnames : ∀ v ∈ Json.member? "required" s.members,
      ∃ names : List String, names.Nodup ∧ v = .array (names.map .string) := by
    rw [s.member?_required]
    rintro v ⟨⟩
    exact ⟨s.required, hrequired, rfl⟩
  rw [value, s.toJson_eq, Json.firstViolation?_sortKeys s.nodup_keys s.member?_type hnames,
    s.member?_properties]
  rfl

theorem objectType_mem : Schema.objectType ∈ simpleTypes := by decide

theorem type_compileNested (placement : SignaturePlacement) (i : Interface) :
    (i.compileNested placement).type = Schema.objectType := by
  obtain ⟨name, ⟨members⟩, signatures⟩ := i
  cases placement <;> rfl

theorem violation?_named (placement : SignaturePlacement) (token : String) :
    (TypeExpr.named token).violation? placement =
      if token ∈ simpleTypes then none else some (.unknownType (.string token)) := by
  rw [TypeExpr.violation?, TypeExpr.compile, PropertySchema.firstViolation?_sortKeys]
  rfl

theorem violation?_object (placement : SignaturePlacement) (inner : Interface) :
    (TypeExpr.object inner).violation? placement =
      (sortByKey inner.members.entries).findSome? fun e => e.2.violation? placement := by
  rw [TypeExpr.violation?, TypeExpr.compile, PropertySchema.firstViolation?_sortKeys,
    inner.properties_compileNested, type_compileNested, if_pos objectType_mem, Option.or_none,
    Option.bind_some, childrenViolation?_compileMembers]

theorem firstViolation?_compile (placement : SignaturePlacement) {i : Interface}
    (hi : i.members.Distinct) : (i.compile placement).value.firstViolation? =
      (sortByKey i.members.entries).findSome? fun e => e.2.violation? placement := by
  have hrequired : (i.compile placement).required.Nodup := hi
  have htype : (i.compile placement).type ∈ simpleTypes := objectType_mem
  rw [Schema.firstViolation?_value _ hrequired, if_pos htype, Option.or_none, Interface.compile,
    childrenViolation?_compileMembers]

/-- The walk goes over members in the order of their names, and finds below them what it has to. -/
theorem finds_sortByKey (placement : SignaturePlacement) {members : List (String × TypeExpr)}
    (hkeys : (members.map Prod.fst).Nodup)
    (h : ∀ e ∈ members, Finds e.2.leaves (e.2.violation? placement)) :
    Finds (memberLeaves members)
      ((sortByKey members).findSome? fun e => e.2.violation? placement) := by
  have hsorted := Finds.members (pairwise_sortByKey hkeys) fun e he => h e (mem_sortByKey.1 he)
  refine hsorted.of_mem_iff fun l => ?_
  simp only [mem_memberLeaves, mem_sortByKey]

mutual

/-- The walk finds the first offender below the schema of a type. -/
theorem TypeExpr.finds_violation? (placement : SignaturePlacement) : ∀ t : TypeExpr,
    (∀ level ∈ t.levels, level.members.Distinct) → Finds t.leaves (t.violation? placement)
  | .named token, _ => by
    rw [violation?_named]
    exact Finds.word token
  | .object ⟨name, ⟨members⟩, signatures⟩, h => by
    rw [violation?_object]
    exact finds_sortByKey placement (h _ (Interface.mem_levels_self _))
      (finds_members placement members fun level hlevel => h level (List.mem_cons_of_mem _ hlevel))

theorem finds_members (placement : SignaturePlacement) : ∀ members : List (String × TypeExpr),
    (∀ level ∈ memberLevels members, level.members.Distinct) →
      ∀ e ∈ members, Finds e.2.leaves (e.2.violation? placement)
  | [], _ => fun e he => absurd he List.not_mem_nil
  | (_, type) :: rest, h => by
    obtain ⟨htype, hrest⟩ := forall_mem_memberLevels_cons h
    exact List.forall_mem_cons.2
      ⟨type.finds_violation? placement htype, finds_members placement rest hrest⟩

end

/-- The walk through the document of an interface finds the first offender. -/
theorem Interface.finds_firstViolation? (placement : SignaturePlacement) {i : Interface}
    (hi : i.DistinctMembers) :
    Finds i.leaves (i.compile placement).value.firstViolation? := by
  obtain ⟨name, ⟨members⟩, signatures⟩ := i
  have hroot : FieldMap.Distinct ⟨members⟩ := hi _ (Interface.mem_levels_self _)
  rw [firstViolation?_compile placement hroot]
  exact finds_sortByKey placement hroot
    (finds_members placement members fun level hlevel => hi level (List.mem_cons_of_mem _ hlevel))

/-! ## The verdict -/

/-- A compiled interface is accepted exactly if all its leaves are types of draft-07, and otherwise
refused for the first that is none; required names are never the reason. So interfaces with the same
leaves get the same verdict, however their members are ordered, whatever index signatures they have
and wherever these are kept. -/
theorem draft07_compile (placement : SignaturePlacement) {i : Interface} (hi : i.DistinctMembers) :
    (draft07 (i.compile placement).value = none ↔ ∀ l ∈ i.leaves, l.token ∈ simpleTypes) ∧
      (∀ message, draft07 (i.compile placement).value = some message ↔
        ∃ l, IsFirstOffender i.leaves l ∧ message = (Json.string l.token).compact ++
          " is not valid under any of the schemas listed in the 'anyOf' keyword") ∧
      (∀ required,
        (i.compile placement).value.firstViolation? ≠ some (.repeatedRequired required)) ∧
      ∀ (other : SignaturePlacement) (j : Interface), j.DistinctMembers →
        (∀ l, l ∈ j.leaves ↔ l ∈ i.leaves) →
          draft07 (j.compile other).value = draft07 (i.compile placement).value := by
  have hfinds := i.finds_firstViolation? placement hi
  have hleaves := i.leaf_eq_of_path_eq hi
  refine ⟨?_, fun message => ?_, hfinds.ne_repeatedRequired, fun other j hj hmem => ?_⟩
  · rw [draft07, Option.map_eq_none_iff, hfinds.eq_none_iff]
  · rw [draft07, Option.map_eq_some_iff]
    simp only [hfinds.eq_some_iff hleaves]
    constructor
    · rintro ⟨-, ⟨l, hl, rfl⟩, rfl⟩
      exact ⟨l, hl, rfl⟩
    · rintro ⟨l, hl, rfl⟩
      exact ⟨_, ⟨l, hl, rfl⟩, rfl⟩
  · have hfinds' := (j.finds_firstViolation? other hj).of_mem_iff hmem
    rw [draft07, draft07, hfinds.unique hfinds' hleaves]

/-- The refusal names the word below the first member by name, though it is declared last and is not
the only one. -/
theorem draft07_compile_nested :
    draft07 (Interface.compile .legacy ⟨"T", ⟨[("b", .named "Date"), ("a", .object
      ⟨"a", ⟨[("z", .named "Foo"), ("y", .named "string")]⟩, [⟨"string", .named "Map"⟩]⟩)]⟩,
        []⟩).value =
      some "\"Foo\" is not valid under any of the schemas listed in the 'anyOf' keyword" :=
  ((draft07_compile .legacy (by decide)).2.1 _).2
    ⟨⟨["a", "z"], "Foo"⟩, ⟨by decide, by decide, by decide⟩, by decide⟩

end InterfaceSchema
