import DeclBundle.Files.Tree
import DeclBundle.Proofs.Path.Relative
import Mathlib.Data.Finset.Card
set_option autoImplicit false

/-!
# Ways of canonical locations

A file can be named in many ways, but a canonical location follows its own parts
(`FileTree.way_eq_parts`), so that distinct canonical locations of files are distinct files.  Against
an absolute working directory every path is resolved to such a location.  There are no more files
than entries in a tree.
-/

namespace DeclBundle

/-! ## Canonical locations -/

/-- Whether a location stands below a single slash, and nothing in it is passed over or climbs. -/
structure Location.IsCanonical (l : Location) : Prop where
  slashes : l.slashes = 1
  parts : ∀ part ∈ l.parts, Path.IsOrdinary part

theorem Location.path_eq_ofRoot {l : Location} (hslashes : l.slashes ≠ 0) :
    l.path = Path.ofRoot l.slashes l.parts := by
  have hne := Path.ofRoot_ne_empty hslashes l.parts
  rw [Path.ofRoot] at hne ⊢
  simp [Location.path, hne]

theorem Location.IsCanonical.path_eq {l : Location} (h : l.IsCanonical) :
    l.path = Path.ofRoot 1 l.parts := by
  have hpath := Location.path_eq_ofRoot (l := l) (by rw [h.slashes]; exact Nat.one_ne_zero)
  rwa [h.slashes] at hpath

theorem Location.IsCanonical.parent {l : Location} (h : l.IsCanonical) : l.parent.IsCanonical :=
  ⟨h.slashes, fun part hpart => h.parts part (List.dropLast_subset _ hpart)⟩

theorem Location.ofPath_ofRoot {names : List String} (hnames : ∀ n ∈ names, Path.IsOrdinary n) :
    ofPath (Path.ofRoot 1 names) = ⟨1, names⟩ := by
  have hparts : (Path.segments (Path.ofRoot 1 names)).filter (fun s => s != "" && s != ".") =
      names := by
    have hswap : (fun s : String => s != "" && s != ".") = fun s => s != "." && s != "" :=
      funext fun s => Bool.and_comm _ _
    rw [hswap, ← List.filter_filter, Path.filter_segments_ofRoot 1 (Path.forall_isName hnames)]
    exact List.filter_eq_self.2 fun n hn => by simpa using (hnames n hn).ne_dot
  rw [ofPath, Path.leadingSlashes_ofRoot (by decide) (Path.forall_isName hnames), hparts]

namespace Files

open DeclBundle.Path (IsOrdinary ofRoot)

/-- Against an absolute working directory every path is resolved to a canonical location. -/
theorem isCanonical_resolve {place : Place}
    (hplace : Path.isAbsolute place.workingDirectory = true) (path : String) :
    (resolve place path).IsCanonical := by
  have habsolute : Path.isAbsolute (if Path.isAbsolute path then path
      else Path.join place.workingDirectory path) = true := by
    split
    · assumption
    · exact Path.isAbsolute_join hplace path
  obtain ⟨slashes, segs, -, hsegs, hnormal⟩ := Path.exists_ofRoot_normalize habsolute
  refine ⟨rfl, ?_⟩
  intro part hpart
  simp only [resolve, Location.ofPath, Path.absolute, hnormal, List.mem_filter, Bool.and_eq_true,
    bne_iff_ne] at hpart
  have hsegments : part ∈ (Path.segments (ofRoot slashes segs)).filter (· != "") := by
    simpa using ⟨hpart.1, hpart.2.1⟩
  rw [Path.filter_segments_ofRoot slashes (Path.forall_isName hsegs)] at hsegments
  exact hsegs part hsegments

/-- A path of names is resolved to itself. -/
theorem resolve_ofRoot (place : Place) {names : List String} (hnames : ∀ n ∈ names, IsOrdinary n) :
    resolve place (ofRoot 1 names) = ⟨1, names⟩ := by
  rw [resolve, Path.absolute, if_pos (Path.isAbsolute_ofRoot Nat.one_ne_zero names),
    Path.normalize_ofRoot (.inl rfl) hnames, Location.ofPath_ofRoot hnames]

namespace FileTree

variable {t : FileTree} {place : Place}

/-! ## Following a canonical location -/

/-- Segments that do not climb are followed one by one. -/
theorem follow_ordinary {segs : List String} (h : ∀ seg ∈ segs, seg = "" ∨ IsOrdinary seg)
    {way last : Way} (hlast : t.follow way segs = .ok last) :
    last = way ++ segs.filter (· != "") := by
  induction segs generalizing way with
  | nil =>
    rw [follow] at hlast
    simpa using (Except.ok.inj hlast).symm
  | cons seg segs ih =>
    have hsegs : ∀ s ∈ segs, s = "" ∨ IsOrdinary s := fun s hs => h s (List.mem_cons_of_mem _ hs)
    rw [follow] at hlast
    split at hlast
    · cases hlast
    · cases hlast
    · rcases h seg (List.mem_cons_self ..) with rfl | hseg
      · exact ih hsegs (by simpa using hlast)
      · simp only [hseg.ne_empty, hseg.ne_dot, hseg.ne_dots, decide_false, Bool.or_self,
          Bool.false_eq_true, if_false] at hlast
        split at hlast
        · cases hlast
        · rw [ih hsegs hlast]
          simp [hseg.ne_empty]

/-- A canonical location leads along its parts. -/
theorem way_eq_parts {l : Location} (h : l.IsCanonical) {last : Way}
    (hlast : t.way place l.path = .ok last) : last = l.parts := by
  have hnames := Path.filter_segments_ofRoot 1 (Path.forall_isName h.parts)
  have habsolute : Path.isAbsolute (ofRoot 1 l.parts) = true :=
    Path.isAbsolute_iff.2 ⟨_, by simp [Path.toList_ofRoot]; rfl⟩
  rw [way, h.path_eq, Path.join, if_pos habsolute] at hlast
  rw [follow_ordinary ?_ hlast, List.nil_append, hnames]
  intro seg hseg
  by_cases hempty : seg = ""
  · exact .inl hempty
  · refine .inr (h.parts seg ?_)
    rw [← hnames]
    simpa using ⟨hseg, hempty⟩

/-! ## Following more segments -/

section

variable {way last : Way} {segs others : List String}

theorem follow_append :
    t.follow way (segs ++ others) = (t.follow way segs >>= fun v => t.follow v others) := by
  induction segs generalizing way with
  | nil => rfl
  | cons seg segs ih =>
    rw [List.cons_append, follow, follow]
    cases t.entry? way with
    | none => rfl
    | some e =>
      cases e with
      | file content => rfl
      | directory =>
        simp only [ih]
        split
        · rfl
        split
        · rfl
        split <;> rfl

/-- Segments can be followed only from a directory. -/
theorem entry?_of_follow (h : t.follow way segs = .ok last) (hsegs : segs ≠ []) :
    t.entry? way = some .directory := by
  cases segs with
  | nil => exact absurd rfl hsegs
  | cons seg segs =>
    rw [follow] at h
    split at h
    · cases h
    · cases h
    · assumption

theorem exists_follow_of_append (h : t.follow way (segs ++ others) = .ok last) (hne : others ≠ []) :
    ∃ v, t.follow way segs = .ok v ∧ t.follow v others = .ok last ∧ t.entry? v = some .directory := by
  rw [follow_append] at h
  cases hsegs : t.follow way segs with
  | error reason =>
    rw [hsegs] at h
    cases h
  | ok v =>
    rw [hsegs] at h
    exact ⟨v, rfl, h, entry?_of_follow h hne⟩

/-- A segment that is empty or a dot leads nowhere else. -/
theorem follow_filler {filler : String} (hfiller : filler = "" ∨ filler = ".")
    (h : t.entry? way = some .directory) : t.follow way [filler] = .ok way := by
  rw [follow, h]
  rcases hfiller with rfl | rfl <;> rfl

end

/-! ## The files of a tree -/

/-- The ways that lead to the files of a tree. -/
def fileWays (t : FileTree) : Finset Way :=
  (t.entries.map (·.1)).toFinset.filter fun way => (t.entry? way).any (!·.isDirectory)

theorem mem_fileWays {way : Way} {content : List UInt8}
    (h : t.entry? way = some (.file content)) : way ∈ t.fileWays := by
  have hfile : (t.entry? way).any (!·.isDirectory) = true := by simp [h, Entry.isDirectory]
  have hway : way ≠ [] := by
    rintro rfl
    unfold entry? at h
    simp at h
  unfold entry? at h
  rw [if_neg hway] at h
  obtain ⟨entry, hentry, -⟩ := Option.map_eq_some_iff.1 h
  have hmem := List.mem_of_find?_eq_some hentry
  have heq : entry.1 = way := by simpa using List.find?_some hentry
  simp only [fileWays, Finset.mem_filter, List.mem_toFinset, List.mem_map]
  exact ⟨⟨entry, hmem, heq⟩, hfile⟩

theorem card_fileWays_le (t : FileTree) : t.fileWays.card ≤ t.entries.length := by
  calc t.fileWays.card ≤ (t.entries.map (·.1)).toFinset.card := Finset.card_filter_le _ _
    _ ≤ (t.entries.map (·.1)).length := List.toFinset_card_le _
    _ = t.entries.length := List.length_map _

/-- The parts of a canonical location that can be read are the way to a file. -/
theorem parts_mem_fileWays {l : Location} (h : l.IsCanonical) {content : List UInt8}
    (hread : t.read place l.path = .ok content) : l.parts ∈ t.fileWays := by
  have hlookup : t.lookup place l.path = .ok (.file content) := by
    unfold read at hread
    split at hread
    · cases hread
      assumption
    · cases hread
    · cases hread
  simp only [lookup, bind, Except.bind] at hlookup
  cases hway : t.way place l.path with
  | error reason =>
    rw [hway] at hlookup
    cases hlookup
  | ok last =>
    simp only [hway, way_eq_parts h hway] at hlookup
    split at hlookup
    · next entry hentry =>
      cases hlookup
      exact mem_fileWays hentry
    · cases hlookup

end FileTree

end Files

end DeclBundle
