import InterfaceSchema.Proofs.Documents

/-!
# Publishing into one directory

A schema goes into the output directory, under its title, or nowhere. The title is looked at first
and the validator is asked only then. What passes is the name of an entry of the directory, so that
no other place in a tree can be written, and a failure of any kind changes nothing.

## Main definitions

* `UnsafeTitle` — titles that no schema can be published under.
* `FileTree.afterPublish` — the tree that an attempt to publish a schema leaves.
-/

namespace InterfaceSchema

/-! ## Titles -/

/-- A title that might lead out of the output directory. -/
def UnsafeTitle (title : String) : Prop :=
  title = "" ∨ '/' ∈ title.toList ∨ '\\' ∈ title.toList ∨ ['.', '.'] <:+: title.toList

instance (title : String) : Decidable (UnsafeTitle title) :=
  inferInstanceAs (Decidable (_ ∨ _ ∨ _ ∨ _))

theorem hasDoubleDot_iff {cs : List Char} : hasDoubleDot cs = true ↔ ['.', '.'] <:+: cs := by
  fun_induction hasDoubleDot cs with
  | case1 rest => exact ⟨fun _ => (List.prefix_append ['.', '.'] rest).isInfix, fun _ => rfl⟩
  | case2 c rest hdots ih =>
    have hfront : ¬['.', '.'] <+: c :: rest := by
      rintro ⟨more, hmore⟩
      obtain ⟨rfl, hrest⟩ := List.cons.inj hmore
      exact hdots more rfl hrest.symm
    rw [ih, List.infix_cons_iff, or_iff_right hfront]
  | case3 => simp

theorem Schema.isFileName_of_safe {s : Schema} (h : ¬UnsafeTitle s.title) : IsFileName s.fileName :=
  isFileName_of_not_mem fun hslash => h (.inr (.inl hslash))

/-- Whether the name of the file is a single part of a path never has a say: a title that passes the
other tests always gives such a name. -/
theorem Schema.safeFileName?_eq (s : Schema) :
    s.safeFileName? = if UnsafeTitle s.title then none else some s.fileName := by
  have htests : (s.title.toList.isEmpty || s.title.toList.contains '/' ||
      s.title.toList.contains '\\' || hasDoubleDot s.title.toList) = true ↔
        UnsafeTitle s.title := by
    simp [UnsafeTitle, hasDoubleDot_iff, or_assoc]
  rw [safeFileName?]
  split_ifs with hrefused hunsafe hunsafe
  · rfl
  · rw [Bool.or_eq_true, htests, or_iff_right hunsafe] at hrefused
    simp [Path.fileName?_of_isFileName (isFileName_of_safe hunsafe)] at hrefused
  · rw [Bool.or_eq_true, htests, not_or] at hrefused
    exact absurd hunsafe hrefused.1
  · rfl

/-- Accepted titles give different paths, in whatever spelling of the parts. -/
theorem Schema.title_eq_of_components_eq {s s' : Schema} (h : ¬UnsafeTitle s.title)
    (h' : ¬UnsafeTitle s'.title) (outDir : Path)
    (heq : (outDir.join s.fileName).components = (outDir.join s'.fileName).components) :
    s.title = s'.title := by
  rw [Path.components_join (isFileName_of_safe h), Path.components_join (isFileName_of_safe h')]
    at heq
  simpa [fileName] using heq

/-! ## Publishing -/

namespace FileTree

/-- The tree that an attempt to publish a schema leaves. -/
def afterPublish (t : FileTree) (check : Validator) (outDir : Path) (s : Schema) : FileTree :=
  match t.publish check outDir s with
  | .ok (_, written) => written
  | .error _ => t

variable {t : FileTree} {check : Validator} {outDir : Path} {s : Schema}

theorem publish_of_unsafe (h : UnsafeTitle s.title) :
    t.publish check outDir s = .error (.unsafeTitle s.title) := by
  rw [publish, Schema.safeFileName?_eq, if_pos h]

theorem publish_of_rejected (h : ¬UnsafeTitle s.title) {reason : String}
    (hcheck : check s.value = some reason) :
    t.publish check outDir s = .error (.rejected s.title reason) := by
  rw [publish, Schema.safeFileName?_eq, if_neg h]
  simp only [hcheck]

/-- What passes both checks is written, or the reason is that it cannot be written. -/
theorem publish_of_accepted (h : ¬UnsafeTitle s.title) (hcheck : check s.value = none) :
    (∃ reason, t.publish check outDir s = .error (.write (outDir.join s.fileName) reason)) ∨
      t.publish check outDir s =
        .ok (outDir.join s.fileName, t.afterPublish check outDir s) := by
  rw [afterPublish, publish, Schema.safeFileName?_eq, if_neg h]
  simp only [hcheck]
  cases t.write (outDir.join s.fileName) (utf8 s.text) with
  | error reason => exact .inl ⟨reason, rfl⟩
  | ok written => exact .inr rfl

/-- No other failure passes for an unsafe title. -/
theorem unsafeTitle_of_publish {title : String}
    (h : t.publish check outDir s = .error (.unsafeTitle title)) : UnsafeTitle s.title := by
  by_contra hsafe
  cases hcheck : check s.value with
  | some reason =>
    rw [publish_of_rejected hsafe hcheck] at h
    cases h
  | none =>
    rcases @publish_of_accepted t check outDir s hsafe hcheck with ⟨reason, hwrite⟩ | hok
    · rw [hwrite] at h
      cases h
    · rw [hok] at h
      cases h

/-- A published schema changes one place, which is in the output directory. -/
theorem at?_of_publish {path : Path} {written : FileTree}
    (h : t.publish check outDir s = .ok (path, written)) :
    ∃ dir, t.follow outDir = .ok dir ∧ written.workingDirectory = t.workingDirectory ∧
      ∀ place, written.at? place =
        if place = dir ++ [s.fileName] then some (some (utf8 s.text)) else t.at? place := by
  obtain ⟨hname, -, -, hwrite⟩ := write_of_publish h
  obtain ⟨dir, hfollow, hdir, hfree, rfl, -⟩ := of_write_join hname hwrite
  exact ⟨dir, hfollow, rfl, at?_putAt_file hdir hfree _⟩

/-- A schema is published into the output directory or not at all. An unsafe title is refused,
whatever the validator would say; a document that the validator rejects is refused with its reason;
any other is written under its title, which is one more part behind those of the directory's path,
or cannot be written. A failure leaves the tree as it is, a success changes it at the place of the
path that is returned and nowhere else, and titles that differ have paths that differ. -/
theorem publish_confined (t : FileTree) (check : Validator) (outDir : Path) (s : Schema) :
    let path := outDir.join s.fileName
    let after := t.afterPublish check outDir s
    ((∃ title, t.publish check outDir s = .error (.unsafeTitle title)) ↔ UnsafeTitle s.title) ∧
      (UnsafeTitle s.title →
        ∀ anyCheck, t.publish anyCheck outDir s = .error (.unsafeTitle s.title)) ∧
      (¬UnsafeTitle s.title →
        (Path.mk s.fileName).fileName? = some s.fileName ∧
        path.components = outDir.components ++ [.normal s.fileName] ∧
        (∀ reason, check s.value = some reason →
          t.publish check outDir s = .error (.rejected s.title reason)) ∧
        (check s.value = none →
          (∃ reason, t.publish check outDir s = .error (.write path reason)) ∨
            t.publish check outDir s = .ok (path, after) ∧ after.read path = .ok (utf8 s.text)) ∧
        ∀ s' : Schema, ¬UnsafeTitle s'.title → s'.title ≠ s.title →
          (outDir.join s'.fileName).components ≠ path.components) ∧
      (∀ reason, t.publish check outDir s = .error reason → after = t) ∧
      after.workingDirectory = t.workingDirectory ∧
      ∀ place, after.at? place ≠ t.at? place →
        ∃ dir, t.follow outDir = .ok dir ∧ place = dir ++ [s.fileName] := by
  intro path after
  have hkept (reason : PublishError) (h : t.publish check outDir s = .error reason) :
      after = t := by
    simp only [after, afterPublish, h]
  refine ⟨⟨fun ⟨_, h⟩ => unsafeTitle_of_publish h, fun h => ⟨s.title, publish_of_unsafe h⟩⟩,
    fun h _ => publish_of_unsafe h,
    fun h => ⟨?_, ?_, fun reason => publish_of_rejected h, fun hcheck => ?_,
      fun s' h' hne heq => ?_⟩,
    hkept, ?_⟩
  · exact Path.fileName?_of_isFileName (Schema.isFileName_of_safe h)
  · exact Path.components_join (Schema.isFileName_of_safe h) outDir
  · refine (publish_of_accepted h hcheck).imp_right fun hok => ⟨hok, ?_⟩
    exact (of_publish hok).2
  · exact hne (Schema.title_eq_of_components_eq h' h outDir heq)
  · cases hpublish : t.publish check outDir s with
    | error reason =>
      rw [hkept reason hpublish]
      exact ⟨rfl, fun place hplace => absurd rfl hplace⟩
    | ok result =>
      have hafter : after = result.2 := by simp only [after, afterPublish, hpublish]
      obtain ⟨dir, hfollow, hdirectory, hat⟩ := at?_of_publish hpublish
      rw [hafter]
      refine ⟨hdirectory, fun place hplace => ⟨dir, hfollow, ?_⟩⟩
      by_contra hother
      exact hplace (by rw [hat, if_neg hother])

/-- A title that is a single dot is safe and gives a name with two; a title that ends in two dots is
not safe, even for a validator that rejects everything. -/
theorem publish_confined_dots :
    let t : FileTree := ⟨.directory ⟨[("out", .emptyDirectory)]⟩, []⟩
    let dot : Schema := (Interface.ofName ".").compile .legacy
    let up : Schema := (Interface.ofName "a..").compile .legacy
    let reject : Validator := fun _ => some "no"
    let after := t.afterPublish acceptAll ⟨"/out"⟩ dot
    t.publish reject ⟨"/out"⟩ up = .error (.unsafeTitle "a..") ∧
      t.publish reject ⟨"/out"⟩ dot = .error (.rejected "." "no") ∧
      t.publish acceptAll ⟨"/out"⟩ dot = .ok (⟨"/out/..json"⟩, after) ∧
      after.read ⟨"/out/..json"⟩ = .ok (utf8 dot.text) ∧
      (Path.mk "/out/..json").components = [.root, .normal "out", .normal "..json"] := by
  intro t dot up reject after
  have hsafe : ¬UnsafeTitle dot.title := by decide
  obtain ⟨-, -, hrejected, -⟩ := (publish_confined t reject ⟨"/out"⟩ dot).2.2.1 hsafe
  obtain ⟨-, hcomponents, -, hpublished, -⟩ :=
    (publish_confined t acceptAll ⟨"/out"⟩ dot).2.2.1 hsafe
  have hpath : (Path.mk "/out").join dot.fileName = ⟨"/out/..json"⟩ := by decide +kernel
  have hname : dot.safeFileName? = some "..json" := by
    rw [Schema.safeFileName?_eq, if_neg hsafe]
    rfl
  have hwritten : t.publish acceptAll ⟨"/out"⟩ dot =
      .ok (⟨"/out/..json"⟩, t.putAt ["out", "..json"] (.file (utf8 dot.text))) := by
    rw [publish, hname]
    rfl
  rw [hpath] at hcomponents hpublished
  rcases hpublished rfl with ⟨reason, hfailed⟩ | ⟨hok, hread⟩
  · cases hwritten.symm.trans hfailed
  · exact ⟨(publish_confined t reject ⟨"/out"⟩ up).2.1 (by decide) reject, hrejected "no" rfl, hok,
      hread, hcomponents⟩

end FileTree

end InterfaceSchema
