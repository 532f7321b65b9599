import DeclBundle.Proofs.Declaration.Change
import DeclBundle.Proofs.Declaration.Escapes
import DeclBundle.Proofs.Rewrite.Pieces
import DeclBundle.Proofs.Text.Ascii
set_option autoImplicit false

/-!
# Carriage returns in the content of a module

What a walk writes is copied from the source or given by the rule, so that a character comes into it
only from there (`not_mem_whole`, `not_mem_siblings`).  The rules of bundling write words of their
own, parts of the source and resolved specifiers, and a resolved specifier has its characters from
the specifier and from the module, but for dots and slashes.  Hence no carriage return comes into
the content of a module whose identifier and whose source hold none
(`carriage_not_mem_moduleContent`), whatever the tree of the source looks like.
-/

namespace DeclBundle.Path

variable {c : Char}

/-- A walk leads along the given segments and steps back. -/
theorem mem_walk {rooted : Bool} {segs : List String} {seg : String} (h : seg ∈ walk rooted segs) :
    seg = ".." ∨ seg ∈ segs := by
  have hfold : ∀ trail, seg ∈ segs.foldl (walkStep rooted) trail →
      seg ∈ trail ∨ seg = ".." ∨ seg ∈ segs := by
    clear h
    induction segs with
    | nil => exact fun _ hseg => .inl hseg
    | cons first segs ih =>
      intro trail hseg
      rcases ih _ hseg with hseg | hseg | hseg
      · unfold walkStep at hseg
        split at hseg
        · exact .inl hseg
        · split at hseg
          · split at hseg
            · split at hseg
              · cases hseg
              · exact .inr (.inl (List.mem_singleton.1 hseg))
            · exact (List.mem_cons.1 hseg).symm.imp_right .inl
            · exact .inl (List.mem_cons_of_mem _ hseg)
          · rcases List.mem_cons.1 hseg with rfl | hseg
            · exact .inr (.inr List.mem_cons_self)
            · exact .inl hseg
      · exact .inr (.inl hseg)
      · exact .inr (.inr (List.mem_cons_of_mem first hseg))
  exact (hfold [] (List.mem_reverse.1 h)).resolve_left (by simp)

/-- Normalising brings in no character but slashes and dots. -/
theorem mem_of_mem_normalize {p : String} (h : c ∈ (normalize p).toList) :
    c = '/' ∨ c = '.' ∨ c ∈ p.toList := by
  unfold normalize at h
  dsimp only at h
  split at h
  · exact .inr (.inl (List.mem_singleton.1 h))
  · rw [String.toList_append, List.mem_append, String.toList_ofList] at h
    rcases h with h | h
    · exact .inl (List.eq_of_mem_replicate h)
    · rcases mem_ofSegments h with h | ⟨seg, hseg, h⟩
      · exact .inl h
      · rcases mem_walk hseg with rfl | hseg
        · right; left
          simpa using h
        · exact .inr (.inr (mem_of_mem_segments hseg h))

end DeclBundle.Path

namespace DeclBundle.ModuleId

/-- What a specifier resolves to has its characters from it and from the module that it stands in,
but for slashes and dots. -/
theorem mem_of_mem_resolve {c : Char} {id specifier : String}
    (h : c ∈ (resolve id specifier).toList) :
    c = '/' ∨ c = '.' ∨ c ∈ id.toList ∨ c ∈ specifier.toList := by
  unfold resolve at h
  split at h
  · rcases Path.mem_of_mem_normalize h with h | h | h
    · exact .inl h
    · exact .inr (.inl h)
    · by_contra! hnot
      obtain ⟨hslash, -, hid, hspecifier⟩ := hnot
      refine Path.not_mem_join hslash (fun hmem => hid ?_) hspecifier h
      exact StringLiteral.mem_of_mem_directory hmem
  · exact .inr (.inr (.inr h))

end DeclBundle.ModuleId

namespace DeclBundle.Rewrite

open Utf8

variable {κ : Type} {source : List UInt8} {rule : Rule κ} {c : Char}

/-! ## Walks -/

/-- What pieces contribute that lead the cursor on has its characters from the source and from the
texts of the rule. -/
theorem Leads.not_mem {start stop : Nat} {pieces : List (Piece κ)} {trees : List (Tree κ)}
    (h : Leads source start pieces stop)
    (hreplaced : pieces.filterMap Piece.replaced? = firings rule trees)
    (hsource : ∀ start stop text, slice source start stop = .ok text → c ∉ text)
    (hrule : ∀ t text, rule t = .ok (some text) → c ∉ text.toList) :
    c ∉ pieces.flatMap Piece.text := by
  intro hmem
  obtain ⟨piece, hpiece, hmem⟩ := List.mem_flatMap.1 hmem
  cases piece with
  | copied span text => exact hsource _ _ text (h.slice_eq hpiece).2 hmem
  | replaced t text =>
    have hfired : (t, text) ∈ firings rule trees :=
      hreplaced ▸ List.mem_filterMap.2 ⟨_, hpiece, rfl⟩
    obtain ⟨u, -, hu⟩ := List.mem_filterMap.1 hfired
    obtain ⟨found, hfiring, heq⟩ := Option.map_eq_some_iff.1 hu
    obtain ⟨rfl, rfl⟩ := Prod.mk.inj heq
    refine hrule u found ?_ hmem
    unfold firing at hfiring
    split at hfiring
    · rename_i hfound
      rw [hfound, hfiring]
    · cases hfiring

theorem not_mem_between {trees : List (Tree κ)} {start stop : Nat} {p : Progress κ}
    (hsource : ∀ start stop text, slice source start stop = .ok text → c ∉ text)
    (hrule : ∀ t text, rule t = .ok (some text) → c ∉ text.toList)
    (h : between source rule trees start stop = .ok p) : c ∉ p.written := by
  unfold between at h
  cases hvisits : visitAll source rule trees ⟨start, [], []⟩ with
  | error halt => simp [hvisits, bind, Except.bind] at h
  | ok q =>
    simp only [hvisits, bind, Except.bind] at h
    obtain ⟨pieces, hwritten, hleads, hreplaced⟩ :=
      (visitAll_adds hvisits).trans (copyTo_adds rule h).1
    rw [hwritten, List.nil_append]
    exact hleads.not_mem hreplaced hsource hrule

/-- A rewritten source has its characters from the source and from the texts of the rule. -/
theorem not_mem_whole {root : Tree κ} {text : String}
    (hsource : ∀ start stop text, slice source start stop = .ok text → c ∉ text)
    (hrule : ∀ t text, rule t = .ok (some text) → c ∉ text.toList)
    (h : whole source root rule = .ok text) : c ∉ text.toList := by
  unfold whole result wholeProgress at h
  split at h
  · rename_i hbetween
    obtain rfl := Except.ok.inj h
    simpa using not_mem_between hsource hrule hbetween
  · cases h

theorem not_mem_siblings {trees : List (Tree κ)} {text : String}
    (hsource : ∀ start stop text, slice source start stop = .ok text → c ∉ text)
    (hrule : ∀ t text, rule t = .ok (some text) → c ∉ text.toList)
    (h : siblings source trees rule = .ok text) : c ∉ text.toList := by
  unfold siblings result at h
  split at h
  · rename_i p hprogress
    obtain rfl := Except.ok.inj h
    rw [String.toList_ofList]
    unfold siblingsProgress at hprogress
    split at hprogress
    · exact not_mem_between hsource hrule hprogress
    · obtain rfl := Except.ok.inj hprogress
      exact List.not_mem_nil
  · cases h

end DeclBundle.Rewrite

namespace DeclBundle.Declaration

open Rewrite Utf8

variable {id : String} {cs : List Char} {n : Node} {place : Place}

/-! ## The rules of bundling -/

theorem not_mem_intercalate {α : Type} {a : α} {mark : List α} {lists : List (List α)}
    (hmark : a ∉ mark) (h : ∀ list ∈ lists, a ∉ list) : a ∉ mark.intercalate lists := by
  induction lists with
  | nil => simp
  | cons list lists ih =>
    have hlist := h list List.mem_cons_self
    have hrest := ih fun other hother => h other (List.mem_cons_of_mem list hother)
    cases lists with
    | nil => simpa using hlist
    | cons next others =>
      rw [List.intercalate_cons_cons]
      simp [hlist, hmark, hrest]

theorem carriage_not_mem_slice (hcs : '\r' ∉ cs) (start stop : Nat) (text : List Char)
    (h : slice (encode cs) start stop = .ok text) : '\r' ∉ text :=
  not_mem_of_decode (by decide) (by decide) hcs
    ((List.take_sublist _ _).trans (List.drop_sublist _ _)) h

theorem carriage_not_mem_textOf (hcs : '\r' ∉ cs) {text : String}
    (h : textOf (encode cs) n = .ok text) : '\r' ∉ text.toList := by
  unfold textOf at h
  cases hslice : slice (encode cs) n.start n.stop with
  | error fault => simp [hslice, Except.map] at h
  | ok part =>
    rw [hslice] at h
    obtain rfl := Except.ok.inj h
    simpa using carriage_not_mem_slice hcs _ _ part hslice

theorem mem_of_mem_unquoted {c : Char} {s : String} (h : c ∈ (unquoted s).toList) :
    c ∈ s.toList := by
  unfold unquoted at h
  split at h
  · rename_i d ds hlist
    split at h
    · rw [hlist]
      rw [String.toList_ofList] at h
      exact List.mem_cons_of_mem d (List.dropLast_subset _ h)
    · exact h
  · exact h

theorem carriage_not_mem_valueOf (hcs : '\r' ∉ cs) {value : String}
    (h : valueOf (encode cs) n = .ok value) : '\r' ∉ value.toList := by
  unfold valueOf at h
  cases htext : textOf (encode cs) n with
  | error fault => simp [htext, Except.map] at h
  | ok text =>
    rw [htext] at h
    obtain rfl := Except.ok.inj h
    exact fun hmem => carriage_not_mem_textOf hcs htext (mem_of_mem_unquoted hmem)

theorem carriage_not_mem_resolve (hid : '\r' ∉ id.toList) {value : String}
    (hvalue : '\r' ∉ value.toList) : '\r' ∉ (ModuleId.resolve id value).toList := by
  intro hmem
  rcases ModuleId.mem_of_mem_resolve hmem with h | h | h | h
  · cases h
  · cases h
  · exact hid h
  · exact hvalue h

theorem carriage_not_mem_binds (hcs : '\r' ∉ cs) {text : String}
    (h : Binds (encode cs) n text) : '\r' ∉ text.toList := by
  cases h with
  | plain hname hother htext => exact carriage_not_mem_textOf hcs htext
  | renamed hname hother htext hgiven =>
    simp [carriage_not_mem_textOf hcs htext, carriage_not_mem_textOf hcs hgiven]

theorem carriage_not_mem_of_forall₂_binds (hcs : '\r' ∉ cs) {ns : List Node} {texts : List String}
    (h : List.Forall₂ (Binds (encode cs)) ns texts) : ∀ text ∈ texts, '\r' ∉ text.toList := by
  induction h with
  | nil => simp
  | cons hbinds _ ih => exact List.forall_mem_cons.2 ⟨carriage_not_mem_binds hcs hbinds, ih⟩

/-- No carriage return stands in the text of a change. -/
theorem Change.carriage_not_mem (hid : '\r' ∉ id.toList) (hcs : '\r' ∉ cs) {e : Edit}
    (h : Change id (encode cs) n place e) : '\r' ∉ e.text.toList := by
  cases h with
  | importDefault htype hnamed hclause hname hvalue htext =>
    have htarget := carriage_not_mem_resolve hid (carriage_not_mem_valueOf hcs hvalue)
    simp [carriage_not_mem_textOf hcs htext, htarget]
  | importNames htype hnamed hclause hname hnames hvalue htexts =>
    rename_i texts
    have htarget := carriage_not_mem_resolve hid (carriage_not_mem_valueOf hcs hvalue)
    have hbound : '\r' ∉ [',', ' '].intercalate (texts.map String.toList) := by
      refine not_mem_intercalate (by decide) fun list hlist => ?_
      obtain ⟨text, htext, rfl⟩ := List.mem_map.1 hlist
      exact carriage_not_mem_of_forall₂_binds hcs htexts text htext
    simp [hbound, htarget]
  | requireClause htype hname hnamed hvalue hrelative htext =>
    have htarget := carriage_not_mem_resolve hid (carriage_not_mem_valueOf hcs hvalue)
    simp [carriage_not_mem_textOf hcs htext, htarget]
  | literal hnames hvalue hrelative =>
    have htarget := carriage_not_mem_resolve hid (carriage_not_mem_valueOf hcs hvalue)
    simp [htarget]
  | modifier htype hnamed => simp
  | leadingModifier htype hchildren hmodifier hline => simp

theorem carriage_not_mem_rulesUpTo (hid : '\r' ∉ id.toList) (hcs : '\r' ∉ cs) (height : Nat)
    (t : Tree Located) (text : String)
    (h : rulesUpTo id (encode cs) height t = .ok (some text)) : '\r' ∉ text.toList := by
  induction height generalizing t text with
  | zero => cases h
  | succ height ih =>
    rw [rulesUpTo] at h
    split at h
    · cases hsiblings : siblings (encode cs) (t.children.drop 1) (rulesUpTo id (encode cs) height) with
      | error fault =>
        rw [hsiblings] at h
        cases h
      | ok found =>
        rw [hsiblings] at h
        obtain rfl := Option.some.inj (Except.ok.inj h)
        exact not_mem_siblings (carriage_not_mem_slice hcs) ih hsiblings
    · exact (change_of_nodeRule h).carriage_not_mem hid hcs

/-- No carriage return comes into the content of a module from elsewhere. -/
theorem carriage_not_mem_moduleContent (hid : '\r' ∉ id.toList) (hcs : '\r' ∉ cs) {file : Node}
    {content : String} (h : moduleContent id (encode cs) file = .ok content) :
    '\r' ∉ content.toList :=
  not_mem_whole (carriage_not_mem_slice hcs)
    (fun t text => carriage_not_mem_rulesUpTo hid hcs t.height t text) h

end DeclBundle.Declaration
