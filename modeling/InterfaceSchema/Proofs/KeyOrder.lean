import InterfaceSchema.Json.Basic
import InterfaceSchema.Proofs.Encoding
import Mathlib.Data.List.Nodup
import Mathlib.Data.List.Lex

/-!
# The order of keys

Keys are ordered by their bytes, and a text is known by its bytes. Sorting the members of an object
moves them and changes nothing that is stored under a key, as long as no key occurs twice.

## Main definitions

* `sortByKey` — entries in the order of their keys.
* `Json.keys` — the keys of an object's members.
-/

namespace InterfaceSchema

theorem utf8_injective : Function.Injective utf8 := by
  intro s t h
  have hdecoded := congrArg Utf8.decode? h
  rw [utf8, utf8, Utf8.decode?_encode, Utf8.decode?_encode, Option.some_inj] at hdecoded
  exact String.toList_inj.1 hdecoded

theorem Utf8.le_iff {s t : String} : Utf8.le s t = true ↔ utf8 s ≤ utf8 t := by
  rw [Utf8.le, decide_eq_true_iff]

theorem Utf8.le_trans {s t u : String} (hst : Utf8.le s t = true) (htu : Utf8.le t u = true) :
    Utf8.le s u = true :=
  Utf8.le_iff.2 (List.le_trans (Utf8.le_iff.1 hst) (Utf8.le_iff.1 htu))

theorem Utf8.le_total (s t : String) : (Utf8.le s t || Utf8.le t s) = true := by
  rw [Bool.or_eq_true, Utf8.le_iff, Utf8.le_iff]
  exact List.le_total _ _

/-! ## Sorting entries -/

section Sorting

variable {α β : Type}

/-- What is sorted by bytes comes in their order. -/
theorem pairwise_le_mergeSort (bytes : α → List UInt8) (items : List α) :
    (items.mergeSort fun a b => decide (bytes a ≤ bytes b)).Pairwise fun a b =>
      bytes a ≤ bytes b := by
  have hle (a b : α) : decide (bytes a ≤ bytes b) = true ↔ bytes a ≤ bytes b := decide_eq_true_iff
  refine (List.pairwise_mergeSort ?_ ?_ items).imp (hle _ _).1
  · intro a b c hab hbc
    exact (hle a c).2 (List.le_trans ((hle a b).1 hab) ((hle b c).1 hbc))
  · intro a b
    rw [Bool.or_eq_true, hle, hle]
    exact List.le_total _ _

/-- Where no bytes occur twice, the order is strict. -/
theorem pairwise_lt_mergeSort {bytes : α → List UInt8} {items : List α}
    (h : (items.map bytes).Nodup) :
    (items.mergeSort fun a b => decide (bytes a ≤ bytes b)).Pairwise fun a b =>
      bytes a < bytes b := by
  have hdistinct : (items.mergeSort fun a b => decide (bytes a ≤ bytes b)).Pairwise fun a b =>
      bytes a ≠ bytes b :=
    List.pairwise_map.1 (((List.mergeSort_perm items _).map bytes).nodup_iff.2 h)
  refine ((pairwise_le_mergeSort bytes items).and hdistinct).imp ?_
  rintro a b ⟨hle, hne⟩
  exact (List.le_iff_lt_or_eq.1 hle).resolve_right hne

/-- Entries in the order of the bytes of their keys. -/
def sortByKey (entries : List (String × α)) : List (String × α) :=
  entries.mergeSort fun a b => Utf8.le a.1 b.1

theorem perm_sortByKey (entries : List (String × α)) : (sortByKey entries).Perm entries :=
  List.mergeSort_perm entries _

theorem mem_sortByKey {entries : List (String × α)} {e : String × α} :
    e ∈ sortByKey entries ↔ e ∈ entries :=
  (perm_sortByKey entries).mem_iff

/-- What is made of the values alone can be made of them before sorting as well. -/
theorem map_sortByKey (f : α → β) (entries : List (String × α)) :
    (sortByKey entries).map (fun e => (e.1, f e.2)) =
      sortByKey (entries.map fun e => (e.1, f e.2)) :=
  List.map_mergeSort fun _ _ _ _ => rfl

/-- Keys come in increasing order. -/
theorem pairwise_le_sortByKey (entries : List (String × α)) :
    (sortByKey entries).Pairwise fun a b => Utf8.le a.1 b.1 := by
  exact (pairwise_le_mergeSort (fun e => utf8 e.1) entries).imp Utf8.le_iff.2

/-- Distinct keys come in strictly increasing order. -/
theorem pairwise_sortByKey {entries : List (String × α)}
    (hentries : (entries.map Prod.fst).Nodup) :
    (sortByKey entries).Pairwise fun a b => utf8 a.1 < utf8 b.1 := by
  have hbytes : (entries.map fun e => utf8 e.1).Nodup := by
    have hmap := hentries.map utf8_injective
    rwa [List.map_map] at hmap
  exact pairwise_lt_mergeSort hbytes

/-- The first entry goes behind those of smaller keys, and in front of all others. -/
theorem exists_sortByKey_cons (e : String × α) (rest : List (String × α)) :
    ∃ front back, sortByKey (e :: rest) = front ++ e :: back ∧ sortByKey rest = front ++ back ∧
      (∀ a ∈ front, Utf8.le e.1 a.1 = false) ∧ ∀ a ∈ back, Utf8.le e.1 a.1 = true := by
  obtain ⟨front, back, hcons, hrest, hfront⟩ :=
    @List.mergeSort_cons (String × α) (fun a b => Utf8.le a.1 b.1) (fun _ _ _ => Utf8.le_trans)
      (fun _ _ => Utf8.le_total _ _) e rest
  refine ⟨front, back, hcons, hrest, fun a ha => by simpa using hfront a ha, ?_⟩
  have hsorted := pairwise_le_sortByKey (e :: rest)
  rw [sortByKey, hcons, List.pairwise_append, List.pairwise_cons] at hsorted
  exact hsorted.2.1.1

theorem sortByKey_cons (e : String × α) (rest : List (String × α)) :
    sortByKey (e :: rest) = (sortByKey rest).filter (fun a => !Utf8.le e.1 a.1) ++
      e :: (sortByKey rest).filter fun a => Utf8.le e.1 a.1 := by
  obtain ⟨front, back, hcons, hrest, hfront, hback⟩ := exists_sortByKey_cons e rest
  have hsmaller : (front ++ back).filter (fun a => !Utf8.le e.1 a.1) = front := by
    rw [List.filter_append, List.filter_eq_self.2 fun a ha => by simp [hfront a ha],
      List.filter_eq_nil_iff.2 fun a ha => by simp [hback a ha], List.append_nil]
  have hothers : (front ++ back).filter (fun a => Utf8.le e.1 a.1) = back := by
    rw [List.filter_append, List.filter_eq_nil_iff.2 fun a ha => by simp [hfront a ha],
      List.filter_eq_self.2 hback, List.nil_append]
  rw [hcons, hrest, hsmaller, hothers]

/-- Entries may be left out before or after sorting. -/
theorem filter_sortByKey (P : String × α → Bool) (entries : List (String × α)) :
    (sortByKey entries).filter P = sortByKey (entries.filter P) := by
  induction entries with
  | nil => rw [sortByKey, List.mergeSort_nil, List.filter_nil, sortByKey, List.mergeSort_nil]
  | cons e rest ih =>
    cases hP : P e with
    | false =>
      obtain ⟨front, back, hcons, hrest, -⟩ := exists_sortByKey_cons e rest
      have hneg : ¬P e = true := by simp [hP]
      rw [hcons, List.filter_append, List.filter_cons_of_neg hneg, ← List.filter_append, ← hrest,
        ih, List.filter_cons_of_neg hneg]
    | true =>
      have hcomm (Q : String × α → Bool) :
          ((sortByKey rest).filter Q).filter P = (sortByKey (rest.filter P)).filter Q := by
        rw [← ih, List.filter_filter, List.filter_filter]
        simp only [Bool.and_comm]
      rw [sortByKey_cons, List.filter_append, List.filter_cons_of_pos hP, hcomm, hcomm,
        List.filter_cons_of_pos hP, sortByKey_cons]

end Sorting

namespace Json

/-! ## Members by their keys -/

section Members

variable {members : List (String × Json)}

/-- The keys of an object's members. -/
def keys (members : List (String × Json)) : List String :=
  members.map Prod.fst

/-- Where no key occurs twice, members are what is found under their keys. -/
theorem member?_eq_some_iff (h : (keys members).Nodup) {key : String} {v : Json} :
    member? key members = some v ↔ (key, v) ∈ members := by
  induction members with
  | nil => simp [member?]
  | cons e rest ih =>
    obtain ⟨k, w⟩ := e
    obtain ⟨hk, hrest⟩ := List.nodup_cons.1 h
    rw [member?]
    split_ifs with heq
    · have hv : (k, v) ∉ rest := fun hv => hk (List.mem_map.2 ⟨_, hv, rfl⟩)
      grind
    · rw [ih hrest]
      grind

theorem member?_eq_none_iff {key : String} :
    member? key members = none ↔ key ∉ keys members := by
  induction members with
  | nil => simp [member?, keys]
  | cons e rest ih =>
    rw [member?, keys, List.map_cons, List.mem_cons, not_or, ← keys, ← ih]
    split_ifs with heq <;> grind

/-- The order of members does not matter for what is found under a key. -/
theorem member?_perm {others : List (String × Json)} (hperm : members.Perm others)
    (h : (keys members).Nodup) (key : String) : member? key members = member? key others := by
  have hothers : (keys others).Nodup := (hperm.map Prod.fst).nodup_iff.1 h
  ext v
  rw [member?_eq_some_iff h, member?_eq_some_iff hothers, hperm.mem_iff]

theorem member?_map (f : Json → Json) (key : String) :
    member? key (members.map fun e => (e.1, f e.2)) = (member? key members).map f := by
  induction members with
  | nil => rfl
  | cons e rest ih =>
    rw [List.map_cons, member?, member?, ih]
    split <;> rfl

end Members

/-! ## Sorted values -/

theorem sortItems_eq (items : List Json) : sortItems items = items.map sortKeys := by
  induction items with
  | nil => rfl
  | cons v rest ih => rw [sortItems, ih, List.map_cons]

theorem sortMembers_eq (members : List (String × Json)) :
    sortMembers members = members.map fun e => (e.1, e.2.sortKeys) := by
  induction members with
  | nil => rfl
  | cons e rest ih => rw [sortMembers, ih, List.map_cons]

theorem sortKeys_array (items : List Json) :
    (array items).sortKeys = .array (items.map sortKeys) := by
  rw [sortKeys, sortItems_eq]

theorem sortKeys_object (members : List (String × Json)) :
    (object members).sortKeys =
      .object (sortByKey (members.map fun e => (e.1, e.2.sortKeys))) := by
  rw [sortKeys, sortMembers_eq]
  rfl

theorem keys_map (f : Json → Json) (members : List (String × Json)) :
    keys (members.map fun e => (e.1, f e.2)) = keys members := by
  rw [keys, List.map_map]
  rfl

/-- Sorting keeps what is found under a key, up to the order inside it. -/
theorem member?_sortByKey {members : List (String × Json)} (h : (keys members).Nodup)
    (key : String) : member? key (sortByKey (members.map fun e => (e.1, e.2.sortKeys))) =
      (member? key members).map sortKeys := by
  have hkeys := keys_map sortKeys members
  rw [member?_perm (perm_sortByKey _) _ key, member?_map]
  rw [← hkeys] at h
  exact ((perm_sortByKey _).map Prod.fst).nodup_iff.2 h

end Json

end InterfaceSchema
