import DeclBundle.Proofs.ModuleId.Segments
set_option autoImplicit false

/-!
# Identifiers of files under a base directory

A file that lies under a base directory has an identifier (`exists_ofFile`), whatever its path looks
like.  Declaration files have the same identifier just if their paths differ in nothing but slashes
and backslashes (`ofFile_eq_iff`).
-/

namespace DeclBundle.ModuleId

open Text DeclBundle.Path

/-! ## Backslashes -/

theorem toList_withSlashes (p : String) :
    (withSlashes p).toList = p.toList.map fun c => if c = '\\' then '/' else c := by
  rw [withSlashes, String.toList_ofList]

theorem withSlashes_append (p q : String) :
    withSlashes (p ++ q) = withSlashes p ++ withSlashes q := by
  apply String.toList_inj.1
  simp only [toList_withSlashes, String.toList_append, List.map_append]

theorem withSlashes_eq_of_isSlashes {s : String} (h : IsSlashes s) : withSlashes s = s := by
  apply withSlashes_eq_self
  intro hmem
  exact absurd (h _ hmem) (by decide)

/-! ## Files under a base directory -/

/-- What the identifiers of files leave out of their paths under a base directory. -/
def rootOf (base : String) : String :=
  stripped (withSlashes base)

/-- Whether a text goes on behind a directory: it is empty or starts with a slash. -/
def GoesOn (rest : String) : Prop :=
  rest = "" ∨ beginsWith rest "/" = true

theorem goesOn_slash_append (s : String) : GoesOn ("/" ++ s) := by
  right
  rw [beginsWith_iff]
  exact ⟨s.toList, by simp⟩

/-- Slashes go on behind a directory, and so does what goes on behind them. -/
theorem goesOn_append {s t : String} (hs : IsSlashes s) (ht : GoesOn t) :
    GoesOn (s ++ t) := by
  cases hlist : s.toList with
  | nil =>
    rw [String.toList_eq_nil_iff.1 hlist, String.empty_append]
    exact ht
  | cons c cs =>
    have hc := hs c (by simp [hlist])
    right
    rw [beginsWith_iff, String.toList_append, hlist, hc]
    exact ⟨cs ++ t.toList, rfl⟩

/-- The path of a file under a base directory goes on behind the base directory. -/
theorem exists_goesOn_of_isUnder {path base : String} (h : isUnder path base = true) :
    ∃ rest, withSlashes path = rootOf base ++ rest ∧ GoesOn rest := by
  obtain ⟨trailing, hbase, htrailing⟩ := exists_stripped_append base
  obtain ⟨turned, hturned, hslashes⟩ := exists_stripped_append (withSlashes (stripped base))
  have hwith : withSlashes base = withSlashes (stripped base) ++ trailing := by
    calc withSlashes base = withSlashes (stripped base ++ trailing) := congrArg withSlashes hbase
      _ = withSlashes (stripped base) ++ trailing := by
        rw [withSlashes_append, withSlashes_eq_of_isSlashes htrailing]
  have hroot : rootOf base = stripped (withSlashes (stripped base)) := by
    rw [rootOf, hwith, stripped_append _ htrailing]
  rw [← hroot] at hturned
  rw [isUnder, Bool.or_eq_true] at h
  rcases h with heq | hbegins
  · refine ⟨turned ++ trailing, ?_, goesOn_append hslashes ?_⟩
    · rw [eq_of_beq heq, hwith, hturned, String.append_assoc]
    · have hend := goesOn_append htrailing (.inl rfl)
      rwa [String.append_empty] at hend
  · obtain ⟨tail, htail⟩ := beginsWith_iff.1 hbegins
    have hpath : path = stripped base ++ ("/" ++ .ofList tail) := by
      apply String.toList_inj.1
      rw [← htail]
      simp [stripped]
    refine ⟨turned ++ ("/" ++ withSlashes (.ofList tail)), ?_,
      goesOn_append hslashes (goesOn_slash_append _)⟩
    rw [hpath, withSlashes_append, hturned, withSlashes_append, String.append_assoc]
    rfl

/-- A file under a base directory has an identifier. -/
theorem exists_ofFile {path base : String} (package : String) (h : isUnder path base = true) :
    ∃ rest, withSlashes path = rootOf base ++ rest ∧ GoesOn rest ∧
      ofFile base package path = .ok (package ++ withoutSuffix rest declarationSuffix) := by
  obtain ⟨rest, hpath, hrest⟩ := exists_goesOn_of_isUnder h
  refine ⟨rest, hpath, hrest, ?_⟩
  have hdrop : String.ofList ((withSlashes path).toList.drop (rootOf base).toList.length) = rest := by
    rw [hpath, String.toList_append, List.drop_left, String.ofList_toList]
  have hunder : (withSlashes path != rootOf base &&
      !beginsWith (withSlashes path) (rootOf base ++ "/")) = false := by
    rcases hrest with rfl | hbegins
    · simp [hpath]
    · have hlong : beginsWith (withSlashes path) (rootOf base ++ "/") = true := by
        obtain ⟨tail, htail⟩ := beginsWith_iff.1 hbegins
        rw [beginsWith_iff]
        refine ⟨tail, ?_⟩
        rw [hpath, String.toList_append, String.toList_append, List.append_assoc, htail]
      simp [hlong]
  unfold rootOf stripped at hunder hdrop
  unfold ofFile
  simp only [hunder, hdrop]
  rfl

/-! ## Declaration files -/

/-- What a declaration file adds to the base directory: nothing, if it is the base directory, or a
name that has a suffix. -/
theorem rest_cases {path base rest : String} (hsuffix : finishesWith path declarationSuffix = true)
    (hpath : withSlashes path = rootOf base ++ rest) (hrest : GoesOn rest) :
    rest = "" ∨ ∃ name, rest = "/" ++ name ++ declarationSuffix := by
  rcases hrest with rfl | hbegins
  · exact .inl rfl
  · right
    obtain ⟨front, hfront⟩ := finishesWith_iff.1 hsuffix
    obtain ⟨tail, htail⟩ := beginsWith_iff.1 hbegins
    have hsplit : path = .ofList front ++ declarationSuffix := by
      apply String.toList_inj.1
      rw [← hfront, String.toList_append, String.toList_ofList]
    have hrest : rest = "/" ++ .ofList tail := by
      apply String.toList_inj.1
      simp [← htail]
    have hends : finishesWith (rootOf base ++ "/" ++ .ofList tail) declarationSuffix = true := by
      rw [String.append_assoc, ← hrest, ← hpath, hsplit, withSlashes_append, finishesWith_iff,
        String.toList_append]
      exact List.suffix_append _ _
    rw [finishesWith_append (.inr (by simp)) (by decide)] at hends
    obtain ⟨name, hname⟩ := finishesWith_iff.1 hends
    refine ⟨.ofList name, ?_⟩
    rw [hrest, String.append_assoc]
    congr 1
    apply String.toList_inj.1
    rw [← hname, String.toList_append, String.toList_ofList]

/-- The identifiers of declaration files under a base directory are the same just if the paths differ
in nothing but slashes and backslashes. -/
theorem ofFile_eq_iff {path path' base : String} (package : String)
    (h : isUnder path base = true) (h' : isUnder path' base = true)
    (hsuffix : finishesWith path declarationSuffix = true)
    (hsuffix' : finishesWith path' declarationSuffix = true) :
    ofFile base package path = ofFile base package path' ↔ withSlashes path = withSlashes path' := by
  obtain ⟨rest, hpath, hrest, hid⟩ := exists_ofFile package h
  obtain ⟨rest', hpath', hrest', hid'⟩ := exists_ofFile package h'
  have hempty : withoutSuffix "" declarationSuffix = "" := by decide
  rw [hid, hid', hpath, hpath', Except.ok.injEq, String.append_right_inj, String.append_right_inj]
  rcases rest_cases hsuffix hpath hrest with rfl | ⟨name, rfl⟩
  · rcases rest_cases hsuffix' hpath' hrest' with rfl | ⟨name', rfl⟩
    · simp
    · rw [withoutSuffix_append, hempty]
      simp
  · rcases rest_cases hsuffix' hpath' hrest' with rfl | ⟨name', rfl⟩
    · rw [withoutSuffix_append, hempty]
      simp
    · rw [withoutSuffix_append, withoutSuffix_append, String.append_left_inj]

end DeclBundle.ModuleId
