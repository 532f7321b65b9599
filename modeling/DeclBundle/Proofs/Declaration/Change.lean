import DeclBundle.Declaration.Rules
import DeclBundle.Proofs.Rewrite.Edits
import Mathlib.Data.List.Forall2
set_option autoImplicit false

/-!
# The changes that bundling makes

What is written anew in a module, said for one node at a time and without a walk: an import with a
default or with names, a require clause and a literal that name a module of the bundle, and the
modifier `declare`, alone or with what stands before the rest of a declaration that begins its
line.  `change?` finds the change of a node from the rules, and finds just what the relation says
(`change?_eq_some_iff`).
-/

namespace DeclBundle.Declaration

open Utf8 Rewrite

variable {id : String} {source : List UInt8}

/-! ## Changes -/

/-- Whether a node binds a name in the braces of an import. -/
def isBinding (n : Node) : Bool :=
  n.label.type == "import_specifier" && n.label.isNamed && (field? n "name").isSome

/-- What a node between the braces of an import binds, as it is written there. -/
inductive Binds (source : List UInt8) (n : Node) : String → Prop where
  | plain {name : Node} {text : String} (hname : field? n "name" = some name)
      (hother : field? n "alias" = none) (htext : textOf source name = .ok text) : Binds source n text
  | renamed {name other : Node} {text given : String} (hname : field? n "name" = some name)
      (hother : field? n "alias" = some other) (htext : textOf source name = .ok text)
      (hgiven : textOf source other = .ok given) : Binds source n (text ++ " as " ++ given)

/-- Whether a node at a place is a literal that names a module. -/
inductive NamesModule (n : Node) : Place → Prop where
  /-- the source of an import or export statement -/
  | source {parent named : Node} {place : Place} {before : List Node}
      (htype : n.label.type = "string")
      (hparent : parent.label.type = "import_statement" ∨ parent.label.type = "export_statement")
      (hnamed : field? parent "source" = some named) (hspan : named.span = n.span) :
      NamesModule n (.inside parent place before)
  /-- directly among the arguments of `import(…)` -/
  | argument {parent keyword : Node} {place : Place} {before others : List Node}
      (htype : n.label.type = "string") (hparent : parent.label.type = "arguments")
      (hbefore : place.before = keyword :: others) (hkeyword : keyword.label.type = "import") :
      NamesModule n (.inside parent place before)
  /-- directly behind `import` and a bracket -/
  | bracketed {parent bracket keyword : Node} {place : Place} {others : List Node}
      (htype : n.label.type = "string") (hparent : parent.label.type ≠ "arguments")
      (hbracket : bracket.label.type = "(") (hkeyword : keyword.label.type = "import") :
      NamesModule n (.inside parent place (bracket :: keyword :: others))

/-- The change of a node at a place in the module `id`: the part of the source that is replaced and
the text that replaces it. -/
inductive Change (id : String) (source : List UInt8) (n : Node) (place : Place) : Edit → Prop where
  /-- an import statement that binds a default, whether or not it binds names beside it -/
  | importDefault {named clause name : Node} {value text : String}
      (htype : n.label.type = "import_statement") (hnamed : field? n "source" = some named)
      (hclause : firstOfType? n "import_clause" = some clause)
      (hname : firstOfType? clause "identifier" = some name)
      (hvalue : valueOf source named = .ok value) (htext : textOf source name = .ok text) :
      Change id source n place
        ⟨n.span, "import " ++ text ++ " from '" ++ ModuleId.resolve id value ++ "';"⟩
  /-- an import statement that binds names only -/
  | importNames {named clause names : Node} {value : String} {texts : List String}
      (htype : n.label.type = "import_statement") (hnamed : field? n "source" = some named)
      (hclause : firstOfType? n "import_clause" = some clause)
      (hname : firstOfType? clause "identifier" = none)
      (hnames : firstOfType? clause "named_imports" = some names)
      (hvalue : valueOf source named = .ok value)
      (htexts : List.Forall₂ (Binds source) (names.children.filter isBinding) texts) :
      Change id source n place
        ⟨n.span, "import " ++ ("\x7b" ++ ", ".intercalate texts ++ "\x7d") ++ " from '" ++
          ModuleId.resolve id value ++ "';"⟩
  /-- a require clause with a relative specifier -/
  | requireClause {named name : Node} {value text : String}
      (htype : n.label.type = "import_require_clause")
      (hname : firstOfType? n "identifier" = some name)
      (hnamed : (field? n "source").or (firstOfType? n "string") = some named)
      (hvalue : valueOf source named = .ok value) (hrelative : ModuleId.isRelative value = true)
      (htext : textOf source name = .ok text) :
      Change id source n place
        ⟨n.span, text ++ " = require('" ++ ModuleId.resolve id value ++ "')"⟩
  /-- another literal that names a module, with a relative specifier -/
  | literal {value : String} (hnames : NamesModule n place) (hvalue : valueOf source n = .ok value)
      (hrelative : ModuleId.isRelative value = true) :
      Change id source n place ⟨n.span, "'" ++ ModuleId.resolve id value ++ "'"⟩
  /-- the modifier `declare` by itself -/
  | modifier (htype : n.label.type = "declare") (hnamed : n.label.isNamed = false) :
      Change id source n place ⟨n.span, ""⟩
  /-- the modifier `declare` of a declaration that begins its line, with all that stands before the
  next part of the declaration -/
  | leadingModifier {modifier next : Node} {others : List Node}
      (htype : n.label.type = "ambient_declaration")
      (hchildren : n.children = modifier :: next :: others)
      (hmodifier : modifier.label.type = "declare") (hline : startsLine source n.start = true) :
      Change id source n place ⟨⟨n.start, next.start⟩, ""⟩

/-- The change of a node at a place, found from the rules. -/
def change? (id : String) (source : List UInt8) (n : Node) (place : Place) : Option Edit :=
  if beginsLineAmbient source n then
    n.children[1]?.map fun next => ⟨⟨n.start, next.start⟩, ""⟩
  else
    match nodeRule id source n place with
    | .ok (some text) => some ⟨n.span, text⟩
    | _ => none

/-! ## What the rules look at -/

theorem bind_eq_ok_iff {ε α β : Type} {x : Except ε α} {f : α → Except ε β} {b : β} :
    (x >>= f) = .ok b ↔ ∃ a, x = .ok a ∧ f a = .ok b := by
  cases x with
  | error e => simp [bind, Except.bind]
  | ok a => simp [bind, Except.bind]

theorem NamesModule.type_eq {n : Node} {place : Place} (h : NamesModule n place) :
    n.label.type = "string" := by
  cases h <;> assumption

/-- A literal names a module where the rules look for it. -/
theorem namesModule_iff {n : Node} {place : Place} :
    NamesModule n place ↔ (isModuleSource n place || isImportArgument n place) = true := by
  constructor
  · intro h
    cases h with
    | source htype hparent hnamed hspan =>
      simp [isModuleSource, htype, isModuleStatement, hparent, hnamed, hspan]
    | argument htype hparent hbefore hkeyword =>
      simp [isImportArgument, htype, hparent, hbefore, hkeyword]
    | bracketed htype hparent hbracket hkeyword =>
      simp [isImportArgument, htype, hparent, hbracket, hkeyword]
  · intro h
    cases place with
    | root => simp [isModuleSource, isImportArgument] at h
    | inside parent place before =>
      rw [Bool.or_eq_true] at h
      rcases h with h | h
      · simp only [isModuleSource, Place.parent?_inside, isModuleStatement, Bool.and_eq_true,
          Bool.or_eq_true, beq_iff_eq, Option.any_eq_true] at h
        obtain ⟨htype, hparent, named, hnamed, hspan⟩ := h
        exact .source htype hparent hnamed hspan
      · simp only [isImportArgument, Place.parent?_inside, Place.above?_inside,
          Place.before_inside, Option.any_some, Option.bind_some, Bool.and_eq_true, beq_iff_eq] at h
        obtain ⟨htype, h⟩ := h
        split at h
        · rename_i hparent
          obtain ⟨keyword, hhead, hkeyword⟩ := (Option.any_eq_true _ _).1 h
          obtain ⟨others, hbefore⟩ := List.head?_eq_some_iff.1 hhead
          exact .argument htype hparent hbefore (by simpa using hkeyword)
        · rename_i hparent
          split at h
          · obtain ⟨hbracket, hkeyword⟩ : _ ∧ _ := by simpa using h
            exact .bracketed htype hparent hbracket hkeyword
          · cases h

/-- What the rules write for a binding is what it binds. -/
theorem boundName?_eq_ok_iff {n : Node} {found : Option String} (h : isBinding n = true) :
    boundName? source n = .ok found ↔ ∃ text, found = some text ∧ Binds source n text := by
  simp only [isBinding, Bool.and_eq_true, Option.isSome_iff_exists] at h
  obtain ⟨⟨htype, hnamed⟩, name, hname⟩ := h
  simp only [boundName?, htype, hnamed, Bool.and_self, if_true, hname]
  constructor
  · intro hbound
    obtain ⟨text, htext, hbound⟩ := bind_eq_ok_iff.1 hbound
    cases hother : field? n "alias" with
    | none =>
      obtain rfl : some text = found := by simpa [hother, pure, Except.pure] using hbound
      exact ⟨text, rfl, .plain hname hother htext⟩
    | some other =>
      rw [hother] at hbound
      obtain ⟨given, hgiven, hbound⟩ := bind_eq_ok_iff.1 hbound
      obtain rfl : some (aliasText text given) = found := by
        simpa [pure, Except.pure] using hbound
      exact ⟨aliasText text given, rfl, .renamed hname hother htext hgiven⟩
  · rintro ⟨text, rfl, hbinds⟩
    cases hbinds with
    | plain hname' hother htext =>
      obtain rfl := Option.some.inj (hname.symm.trans hname')
      simp [htext, hother, bind, Except.bind, pure, Except.pure]
    | renamed hname' hother htext hgiven =>
      obtain rfl := Option.some.inj (hname.symm.trans hname')
      simp [htext, hother, hgiven, bind, Except.bind, pure, Except.pure, aliasText]

/-- The rules skip what binds no name. -/
theorem boundName?_of_not_isBinding {n : Node} (h : isBinding n = false) :
    boundName? source n = .ok none := by
  unfold boundName?
  split
  · rename_i htype
    cases hname : field? n "name" with
    | none => rfl
    | some name => simp_all [isBinding]
  · rfl

/-- What the rules write for the names of an import is what its bindings bind, in order. -/
theorem boundNames_eq_iff {ns : List Node} {texts : List String} :
    boundNames source ns = .ok texts ↔ List.Forall₂ (Binds source) (ns.filter isBinding) texts := by
  induction ns generalizing texts with
  | nil => simp [boundNames, eq_comm]
  | cons n ns ih =>
    cases hn : isBinding n with
    | false =>
      simp [boundNames, boundName?_of_not_isBinding hn, hn, ih, bind, Except.bind]
    | true =>
      rw [List.filter_cons_of_pos hn, boundNames]
      constructor
      · intro hbound
        obtain ⟨found, hfound, hrest⟩ := bind_eq_ok_iff.1 hbound
        obtain ⟨text, rfl, hbinds⟩ := (boundName?_eq_ok_iff hn).1 hfound
        obtain ⟨others, hothers, hrest⟩ := bind_eq_ok_iff.1 hrest
        obtain rfl : text :: others = texts := by simpa [pure, Except.pure] using hrest
        exact .cons hbinds (ih.1 hothers)
      · intro hbinds
        cases hbinds with
        | cons hfirst hrest =>
          have hbound := (boundName?_eq_ok_iff hn).2 ⟨_, rfl, hfirst⟩
          simp [hbound, ih.2 hrest, bind, Except.bind, pure, Except.pure]

/-! ## The rules find the changes -/

variable {n : Node} {place : Place} {text : String}

theorem change_of_requireRule (htype : n.label.type = "import_require_clause")
    (h : requireRule id source n = .ok (some text)) : Change id source n place ⟨n.span, text⟩ := by
  unfold requireRule at h
  split at h
  · rename_i name named hname hnamed
    obtain ⟨value, hvalue, h⟩ := bind_eq_ok_iff.1 h
    split at h
    · rename_i hrelative
      obtain ⟨bound, hbound, h⟩ := bind_eq_ok_iff.1 h
      obtain rfl : requireText bound (ModuleId.resolve id value) = text := by
        simpa [pure, Except.pure] using h
      exact .requireClause htype hname hnamed hvalue hrelative hbound
    · simp [pure, Except.pure] at h
  · cases h

theorem change_of_importRule (htype : n.label.type = "import_statement")
    (h : importRule id source n = .ok (some text)) : Change id source n place ⟨n.span, text⟩ := by
  unfold importRule at h
  split at h
  · rename_i named clause hnamed hclause
    obtain ⟨value, hvalue, h⟩ := bind_eq_ok_iff.1 h
    split at h
    · rename_i name hname
      obtain ⟨bound, hbound, h⟩ := bind_eq_ok_iff.1 h
      obtain rfl : importText bound (ModuleId.resolve id value) = text := by
        simpa [pure, Except.pure] using h
      exact .importDefault htype hnamed hclause hname hvalue hbound
    · rename_i hname
      split at h
      · rename_i names hnames
        obtain ⟨texts, htexts, h⟩ := bind_eq_ok_iff.1 h
        obtain rfl : importText (bracedText texts) (ModuleId.resolve id value) = text := by
          simpa [pure, Except.pure] using h
        exact .importNames htype hnamed hclause hname hnames hvalue (boundNames_eq_iff.1 htexts)
      · simp [pure, Except.pure] at h
  · cases h

theorem change_of_literalRule (hnames : NamesModule n place)
    (h : literalRule id source n = .ok (some text)) : Change id source n place ⟨n.span, text⟩ := by
  obtain ⟨value, hvalue, h⟩ := bind_eq_ok_iff.1 h
  cases hrelative : ModuleId.isRelative value with
  | false => simp [hrelative, pure, Except.pure] at h
  | true =>
    obtain rfl : quotedModule (ModuleId.resolve id value) = text := by
      simpa [hrelative, pure, Except.pure] using h
    exact .literal hnames hvalue hrelative

/-- A rule for a single node that gives a text has found a change of the whole node. -/
theorem change_of_nodeRule (h : nodeRule id source n place = .ok (some text)) :
    Change id source n place ⟨n.span, text⟩ := by
  unfold nodeRule at h
  split at h
  · rename_i htype
    exact change_of_requireRule (by simpa using htype) h
  · split at h
    · rename_i htype
      obtain ⟨hdeclare, hnamed⟩ : n.label.type = "declare" ∧ n.label.isNamed = false := by
        simpa using htype
      obtain rfl : "" = text := by simpa using h
      exact .modifier hdeclare hnamed
    · split at h
      · rename_i htype
        exact change_of_importRule (by simpa using htype) h
      · split at h
        · rename_i hnames
          exact change_of_literalRule (namesModule_iff.2 hnames) h
        · cases h

/-- A declaration whose `declare` begins its line, as the rules find it. -/
theorem beginsLineAmbient_iff :
    beginsLineAmbient source n = true ↔
      n.label.type = "ambient_declaration" ∧ startsLine source n.start = true ∧
        ∃ modifier next others, n.children = modifier :: next :: others ∧
          modifier.label.type = "declare" := by
  unfold beginsLineAmbient
  constructor
  · intro h
    simp only [Bool.and_eq_true, beq_iff_eq] at h
    obtain ⟨⟨htype, hchildren⟩, hline⟩ := h
    refine ⟨htype, hline, ?_⟩
    split at hchildren
    · rename_i modifier next others hlist
      exact ⟨modifier, next, others, hlist, by simpa using hchildren⟩
    · cases hchildren
  · rintro ⟨htype, hline, modifier, next, others, hchildren, hmodifier⟩
    simp [htype, hline, hchildren, hmodifier]

theorem beginsLineAmbient_of_type (h : n.label.type ≠ "ambient_declaration") :
    beginsLineAmbient source n = false := by
  simp [beginsLineAmbient, h]

/-- A change of a node is what the rules give for it. -/
theorem change?_eq_some_iff {e : Edit} :
    change? id source n place = some e ↔ Change id source n place e := by
  constructor
  · intro h
    unfold change? at h
    split at h
    · rename_i hbegins
      obtain ⟨htype, hline, modifier, next, others, hchildren, hmodifier⟩ :=
        beginsLineAmbient_iff.1 hbegins
      obtain rfl : ⟨⟨n.start, next.start⟩, ""⟩ = e := by simpa [hchildren] using h
      exact .leadingModifier htype hchildren hmodifier hline
    · split at h
      · rename_i text hrule
        obtain rfl := Option.some.inj h
        exact change_of_nodeRule hrule
      · cases h
  · intro h
    cases h with
    | importDefault htype hnamed hclause hname hvalue htext =>
      have hbegins : beginsLineAmbient source n = false := beginsLineAmbient_of_type (by simp [htype])
      simp [change?, hbegins, nodeRule, htype, importRule, hnamed, hclause, hname, hvalue, htext,
        bind, Except.bind, pure, Except.pure, importText]
    | importNames htype hnamed hclause hname hnames hvalue htexts =>
      have hbegins : beginsLineAmbient source n = false := beginsLineAmbient_of_type (by simp [htype])
      simp [change?, hbegins, nodeRule, htype, importRule, hnamed, hclause, hname, hnames, hvalue,
        boundNames_eq_iff.2 htexts, bind, Except.bind, pure, Except.pure, importText, bracedText]
    | requireClause htype hname hnamed hvalue hrelative htext =>
      have hbegins : beginsLineAmbient source n = false := beginsLineAmbient_of_type (by simp [htype])
      simp [change?, hbegins, nodeRule, htype, requireRule, hname, hnamed, hvalue, hrelative, htext,
        bind, Except.bind, pure, Except.pure, requireText]
    | literal hnames hvalue hrelative =>
      have htype := hnames.type_eq
      have hplace : isModuleSource n place = true ∨ isImportArgument n place = true := by
        simpa using namesModule_iff.1 hnames
      have hbegins : beginsLineAmbient source n = false := beginsLineAmbient_of_type (by simp [htype])
      simp [change?, hbegins, nodeRule, htype, hplace, literalRule, hvalue, hrelative, bind,
        Except.bind, pure, Except.pure, quotedModule]
    | modifier htype hnamed =>
      have hbegins : beginsLineAmbient source n = false := beginsLineAmbient_of_type (by simp [htype])
      simp [change?, hbegins, nodeRule, htype, hnamed]
    | leadingModifier htype hchildren hmodifier hline =>
      have hbegins := beginsLineAmbient_iff.2 ⟨htype, hline, _, _, _, hchildren, hmodifier⟩
      simp [change?, hbegins, hchildren]

/-! ## Places that are hidden -/

/-- Whether a place lies in a part of the source that the change of a node around it replaces.  The
change of a declaration that begins its line replaces what stands before its second part only. -/
inductive Hidden (id : String) (source : List UInt8) : Place → Prop where
  | above {parent : Node} {place : Place} {before : List Node} (h : Hidden id source place) :
      Hidden id source (.inside parent place before)
  | replaced {parent : Node} {place : Place} {before : List Node} {e : Edit}
      (h : Change id source parent place e) (htype : parent.label.type ≠ "ambient_declaration") :
      Hidden id source (.inside parent place before)
  | leading {parent : Node} {place : Place} {e : Edit} (h : Change id source parent place e) :
      Hidden id source (.inside parent place [])

/-- Whether a place is hidden, found from the rules. -/
def isHidden (id : String) (source : List UInt8) : Place → Bool
  | .root => false
  | .inside parent place before =>
    isHidden id source place ||
      (change? id source parent place).isSome &&
        (before.isEmpty || !beginsLineAmbient source parent)

/-- A change of a declaration behind `declare` is one of a declaration that begins its line. -/
theorem Change.beginsLineAmbient_eq {e : Edit} (h : Change id source n place e) :
    beginsLineAmbient source n = decide (n.label.type = "ambient_declaration") := by
  cases h with
  | leadingModifier htype hchildren hmodifier hline =>
    simp [htype, beginsLineAmbient_iff.2 ⟨htype, hline, _, _, _, hchildren, hmodifier⟩]
  | importDefault htype => simp [htype, beginsLineAmbient]
  | importNames htype => simp [htype, beginsLineAmbient]
  | requireClause htype => simp [htype, beginsLineAmbient]
  | literal hnames => simp [hnames.type_eq, beginsLineAmbient]
  | modifier htype => simp [htype, beginsLineAmbient]

theorem isHidden_iff {place : Place} : isHidden id source place = true ↔ Hidden id source place := by
  induction place with
  | root =>
    constructor
    · intro h
      cases h
    · intro h
      cases h
  | inside parent place before ih =>
    simp only [isHidden, Bool.or_eq_true, Bool.and_eq_true, List.isEmpty_iff, Bool.not_eq_true',
      Option.isSome_iff_exists, change?_eq_some_iff, ih]
    constructor
    · rintro (h | ⟨⟨e, he⟩, rfl | hbegins⟩)
      · exact .above h
      · exact .leading he
      · rw [he.beginsLineAmbient_eq, decide_eq_false_iff_not] at hbegins
        exact .replaced he hbegins
    · intro h
      cases h with
      | above h => exact .inl h
      | replaced h htype =>
        exact .inr ⟨⟨_, h⟩, .inr (by rw [h.beginsLineAmbient_eq, decide_eq_false htype])⟩
      | leading h => exact .inr ⟨⟨_, h⟩, .inl rfl⟩

/-- Whether a node is written anew where it stands: it has a change, and its place is not hidden. -/
def IsChanged (id : String) (source : List UInt8) (p : Located) : Prop :=
  (∃ e, Change id source p.1 p.2 e) ∧ ¬ Hidden id source p.2

instance (p : Located) : Decidable (IsChanged id source p) :=
  decidable_of_iff ((change? id source p.1 p.2).isSome ∧ isHidden id source p.2 = false) (by
    rw [IsChanged, ← isHidden_iff, Bool.not_eq_true, Option.isSome_iff_exists]
    simp only [change?_eq_some_iff])

end DeclBundle.Declaration
