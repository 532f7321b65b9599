import DeclBundle.Document
import DeclBundle.Proofs.Files.Alike
import DeclBundle.Proofs.Files.Way
import DeclBundle.Proofs.Path.Trailing
set_option autoImplicit false

/-!
# Opening a document over a file that is there

Where the path of a document leads to a file, the directories above it are there, so that none is
made: the file is emptied, and nothing else changes (`Document.openFile_eq`).
-/

namespace DeclBundle

open DeclBundle.Path

/-! ## Segments of locations -/

/-- Whether the parts of a location are names. -/
def Location.HasNames (l : Location) : Prop :=
  ∀ part ∈ l.parts, IsName part

theorem Location.hasNames_ofPath (p : String) : (ofPath p).HasNames := by
  intro part hpart
  simp only [ofPath, List.mem_filter, Bool.and_eq_true, bne_iff_ne] at hpart
  exact ⟨hpart.2.1, not_mem_of_mem_segments hpart.1⟩

/-- The path of a relative location is its parts, or a single dot if it has none. -/
theorem Location.segments_path {parts : List String} (h : ∀ part ∈ parts, IsName part) :
    isAbsolute (Location.path ⟨0, parts⟩) = false ∧
      segments (Location.path ⟨0, parts⟩) = if parts = [] then ["."] else parts := by
  by_cases hparts : parts = []
  · subst hparts
    decide
  · have hne : ofSegments parts ≠ "" := by
      obtain ⟨c, cs, hlist, -⟩ := toList_ofSegments_eq_cons hparts h
      intro hempty
      rw [hempty] at hlist
      cases hlist
    have hpath : Location.path ⟨0, parts⟩ = ofSegments parts := by simp [Location.path, hne]
    rw [hpath, if_neg hparts]
    exact ⟨isAbsolute_ofSegments h, segments_ofSegments hparts fun part hpart => (h part hpart).2⟩

/-- The segments that are followed for a location: those before its parts, and its parts or a segment
that leads nowhere else. -/
theorem exists_segments_path (directory : String) (slashes : Nat) :
    ∃ before filler, (filler = "" ∨ filler = ".") ∧
      ∀ parts : List String, (∀ part ∈ parts, IsName part) →
        segments (join directory (Location.path ⟨slashes, parts⟩)) =
          before ++ if parts = [] then [filler] else parts := by
  by_cases hslashes : slashes = 0
  · subst hslashes
    by_cases hdirectory : directory = ""
    · refine ⟨[], ".", .inr rfl, fun parts hparts => ?_⟩
      obtain ⟨hrelative, hsegments⟩ := Location.segments_path hparts
      rw [join, if_neg (by simp [hrelative]), if_pos (by simp [hdirectory]), hdirectory,
        String.empty_append, hsegments, List.nil_append]
    · obtain ⟨front, -, hjoin⟩ := exists_join_eq hdirectory
      refine ⟨segments front, ".", .inr rfl, fun parts hparts => ?_⟩
      obtain ⟨hrelative, hsegments⟩ := Location.segments_path hparts
      rw [hjoin _ hrelative, ← String.append_assoc, segments_append_slash, hsegments]
  · refine ⟨List.replicate slashes "", "", .inl rfl, fun parts hparts => ?_⟩
    have hpath : Location.path ⟨slashes, parts⟩ = ofRoot slashes parts :=
      Location.path_eq_ofRoot (l := ⟨slashes, parts⟩) hslashes
    have habsolute : isAbsolute (ofRoot slashes parts) = true := by
      obtain ⟨more, rfl⟩ := Nat.exists_eq_succ_of_ne_zero hslashes
      exact isAbsolute_iff.2 ⟨_, by rw [toList_ofRoot, List.replicate_succ]; rfl⟩
    rw [hpath, join, if_pos habsolute, segments_ofRoot]
    by_cases hempty : parts = []
    · subst hempty
      rfl
    · rw [if_neg hempty, segments_ofSegments hempty fun part hpart => (hparts part hpart).2]

namespace Files.FileTree

variable {t : FileTree} {place : Place} {way last : Way}

/-- The directory of a file is there. -/
theorem exists_way_parent {l : Location} (hnames : l.HasNames)
    (hway : t.way place l.path = .ok last) (hfile : t.HasFile last) :
    ∃ v, t.way place l.parent.path = .ok v ∧ t.entry? v = some .directory := by
  obtain ⟨before, filler, hfiller, hsegments⟩ :=
    exists_segments_path place.workingDirectory l.slashes
  rw [way, hsegments l.parts hnames] at hway
  obtain ⟨content, hcontent⟩ := hfile
  by_cases hparts : l.parts = []
  · rw [if_pos hparts] at hway
    obtain ⟨v, -, hlast, hv⟩ := exists_follow_of_append hway (List.cons_ne_nil _ _)
    rw [follow_filler hfiller hv] at hlast
    obtain rfl := Except.ok.inj hlast
    rw [hv] at hcontent
    cases hcontent
  · rw [if_neg hparts] at hway
    have hinit : ∀ part ∈ l.parts.dropLast, IsName part :=
      fun part hpart => hnames part (List.mem_of_mem_dropLast hpart)
    have hparent : t.way place l.parent.path =
        t.follow [] (before ++ if l.parts.dropLast = [] then [filler] else l.parts.dropLast) :=
      congrArg (t.follow []) (hsegments l.parts.dropLast hinit)
    rw [← List.dropLast_append_getLast hparts, ← List.append_assoc] at hway
    obtain ⟨v, hv, -, hdirectory⟩ := exists_follow_of_append hway (List.cons_ne_nil _ _)
    refine ⟨v, ?_, hdirectory⟩
    rw [hparent]
    split
    · rename_i hempty
      rw [hempty, List.append_nil] at hv
      rw [follow_append, hv]
      exact follow_filler hfiller hdirectory
    · exact hv

/-- No directory is made where one is. -/
theorem make_eq {l : Location} {v : Way} (hway : t.way place l.path = .ok v)
    (hv : t.entry? v = some .directory) : t.make place l = .ok t := by
  have hone : t.makeOne place l.path = .error .exists := by
    simp only [makeOne, hway, bind, Except.bind, hv]
  have hlast : t.makeLast place l.path = (.ok (), t) := by
    have hdirectory : t.isDirectory place l.path = true := by
      simp [isDirectory, lookup, hway, bind, Except.bind, hv, Entry.isDirectory]
    rw [makeLast, hone]
    exact if_pos hdirectory
  have hall : t.makeUpTo place l.parts.length l = (.ok (), t) := by
    cases l.parts.length with
    | zero => exact hlast
    | succ n =>
      rw [makeUpTo, hone]
      exact hlast
  rw [make, hall]

end Files.FileTree

/-- A document over a file that is there empties it and changes nothing else. -/
theorem Document.openFile_eq {t : Files.FileTree} {place : Files.Place} {l : Location}
    {out : Files.Way} (hnames : l.HasNames) (hway : t.way place l.path = .ok out)
    (hfile : t.HasFile out) :
    Document.openFile t place l =
      .ok ({ name := l.path, file := some out }, t.put out (.file [])) := by
  obtain ⟨v, hparent, hdirectory⟩ := Files.FileTree.exists_way_parent hnames hway hfile
  obtain ⟨content, hcontent⟩ := hfile
  have htruncate : t.truncate place l.path = .ok (t.put out (.file []), out) := by
    simp only [Files.FileTree.truncate, hway, hcontent]
  simp only [openFile, Files.FileTree.make_eq hparent hdirectory, htruncate, bind, Except.bind]
  rfl

end DeclBundle
