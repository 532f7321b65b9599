import DeclBundle.Assembly
import DeclBundle.Proofs.Declaration.Around
import DeclBundle.Proofs.Declaration.Escapes
set_option autoImplicit false

/-!
# What the literals of a block denote

A block writes literals of its own: the identifier of its module behind `declare module`, and the
module that an import, an export or a require clause names.  They are written between single quotes
without any escape.  Here the block is read with the rules of the language (`literals_denote`): the
identifier denotes what it should just if it has no character that these rules give a meaning, and so
does the module that is named by a literal without a backslash.  A name with escapes is resolved as it
is written; the name of a package then denotes the same just if no quote in it ends the literal, and a
relative name denotes what it should if its escapes leave slashes and dots alone.
-/

namespace DeclBundle.Declaration

open Utf8 Rewrite Format StringLiteral ModuleId

variable {id : String} {source : List UInt8} {n named : Node} {place : Place} {e : Edit}

/-! ## The literal of a change -/

/-- The literal that names the module of a statement or clause, or that does itself. -/
def specifier? (n : Node) : Option Node :=
  if n.label.type = "import_statement" then field? n "source"
  else if n.label.type = "import_require_clause" then
    (field? n "source").or (firstOfType? n "string")
  else if n.label.type = "string" then some n
  else none

/-- What is written behind the literal when a node is written anew. -/
def behindSpecifier (n : Node) : String :=
  if n.label.type = "import_statement" then ";"
  else if n.label.type = "import_require_clause" then ")"
  else ""

/-- Whether the text of a change writes the module that a literal names. -/
inductive Writes (id : String) (source : List UInt8) (n named : Node) (text lead : String)
    (value : String) : Prop where
  | intro (hnamed : specifier? n = some named) (hvalue : valueOf source named = .ok value)
      (htext : text = lead ++ "'" ++ resolve id value ++ "'" ++ behindSpecifier n)

/-- A change takes a modifier away or writes the module that a literal names. -/
theorem Change.writes (h : Change id source n place e) :
    e.text = "" ∨ ∃ named lead value, Writes id source n named e.text lead value := by
  cases h with
  | importDefault htype hnamed hclause hname hvalue htext =>
    rename_i named clause name value text
    refine .inr ⟨named, "import " ++ text ++ " from ", value, ?_, hvalue, ?_⟩
    · rw [specifier?, if_pos htype, hnamed]
    · rw [behindSpecifier, if_pos htype]
      simp only [String.append_assoc]
      rfl
  | importNames htype hnamed hclause hname hnames hvalue htexts =>
    rename_i named clause names value texts
    refine .inr ⟨named, "import " ++ ("\x7b" ++ ", ".intercalate texts ++ "\x7d") ++ " from ", value,
      ?_, hvalue, ?_⟩
    · rw [specifier?, if_pos htype, hnamed]
    · rw [behindSpecifier, if_pos htype]
      generalize ", ".intercalate texts = text
      simp only [String.append_assoc]
      rfl
  | requireClause htype hname hnamed hvalue hrelative htext =>
    rename_i named name value text
    have hne : n.label.type ≠ "import_statement" := by
      rw [htype]
      decide
    refine .inr ⟨named, text ++ " = require(", value, ?_, hvalue, ?_⟩
    · rw [specifier?, if_neg hne, if_pos htype, hnamed]
    · rw [behindSpecifier, if_neg hne, if_pos htype]
      simp only [String.append_assoc]
      rfl
  | literal hnames hvalue hrelative =>
    rename_i value
    have htype : n.label.type = "string" := hnames.type_eq
    have hne : n.label.type ≠ "import_statement" ∧ n.label.type ≠ "import_require_clause" := by
      rw [htype]
      decide
    refine .inr ⟨n, "", value, ?_, hvalue, ?_⟩
    · rw [specifier?, if_neg hne.1, if_neg hne.2, if_pos htype]
    · rw [behindSpecifier, if_neg hne.1, if_neg hne.2, String.empty_append, String.append_empty]
  | modifier htype hnamed => exact .inl rfl
  | leadingModifier htype hchildren hmodifier hline => exact .inl rfl

/-! ## The literals of a block -/

variable {f : Format} {cs : List Char} {tree : Node}

/-- Whether a list is the block from the quote on that opens the literal of the `i`th edit: before
it stands what becomes of the source before the edit and of what the edit writes before the literal,
and in it the module that it names, all with an indent behind some of their line breaks. -/
inductive Emits (f : Format) (id : String) (source : List UInt8) (block : String)
    (edits : List Edit) (i : Nat) (n named : Node) : List Char → Prop where
  | intro {e : Edit} {lead value : String} {front before written after : List Char}
      (hedit : edits[i]? = some e) (hwrites : Writes id source n named e.text lead value)
      (hfront : encode front = edited source 0 e.span.start (edits.take i))
      (hbefore : Indents f.indent.toList (front ++ lead.toList) before)
      (hwritten : Indents f.indent.toList (resolve id value).toList written)
      (hblock : block.toList = f.opening id ++ before ++ '\'' :: (written ++ '\'' :: after)) :
      Emits f id source block edits i n named ('\'' :: (written ++ '\'' :: after))

/-- Around an edit, a content falls into what becomes of the source before it, what the edit writes
and what becomes of the source behind it. -/
theorem exists_content_around {content : List Char} {edits : List Edit} {i : Nat}
    (hcontent : encode content = edited (encode cs) 0 (encode cs).length edits)
    (hinOrder : InOrder 0 (encode cs).length edits)
    (hboundary : ∀ e ∈ edits, IsBoundary cs e.span.start ∧ IsBoundary cs e.span.stop)
    (hedit : edits[i]? = some e) :
    ∃ front back, content = front ++ e.text.toList ++ back ∧
      encode front = edited (encode cs) 0 e.span.start (edits.take i) := by
  obtain ⟨hi, rfl⟩ := List.getElem?_eq_some_iff.1 hedit
  have hsplit : edits = edits.take i ++ [edits[i]] ++ edits.drop (i + 1) := by simp
  have hmem : ∀ e ∈ edits.take i ++ [edits[i]] ++ edits.drop (i + 1),
      IsBoundary cs e.span.start ∧ IsBoundary cs e.span.stop := hsplit ▸ hboundary
  rw [hsplit] at hcontent hinOrder
  rw [List.append_assoc, List.singleton_append] at hinOrder
  obtain ⟨hbefore, hspan, hbehind⟩ := hinOrder.of_append_cons
  obtain ⟨hstart, hstop⟩ := hmem edits[i] (by simp)
  have hedit : InOrder edits[i].span.start edits[i].span.stop [edits[i]] :=
    ⟨Nat.le_refl _, hspan, Nat.le_refl _⟩
  obtain ⟨front, text, back, rfl, hfront, htext, -⟩ :=
    exists_parts hcontent hbefore hedit hbehind (isBoundary_zero cs) hstart hstop
      (isBoundary_length cs) hmem
  refine ⟨front, back, ?_, hfront⟩
  have htext' : text = edits[i].text.toList := by
    apply encode_injective
    rw [htext]
    simp [edited, stretch_self]
  rw [htext']

/-- What a change writes comes to stand in the block with its literal. -/
theorem exists_emits {content : String} {edits : List Edit} {i : Nat} {lead value : String}
    {front back : List Char} (heol : EndsLine f.eol.toList)
    (hcontent : content.toList = front ++ e.text.toList ++ back)
    (hfront : encode front = edited source 0 e.span.start (edits.take i))
    (hedit : edits[i]? = some e) (hwrites : Writes id source n named e.text lead value) :
    ∃ written after, Indents f.indent.toList (resolve id value).toList written ∧
      Emits f id source (f.moduleBlock id content) edits i n named
        ('\'' :: (written ++ '\'' :: after)) := by
  have hsplit : content.toList = (front ++ lead.toList) ++ '\'' ::
      ((resolve id value).toList ++ '\'' :: ((behindSpecifier n).toList ++ back)) := by
    rw [hcontent, hwrites.3]
    simp
  have hindents := indents_reindent (f := f) heol content
  rw [hsplit] at hindents
  obtain ⟨before, rest₁, hrest, hbefore, hquote⟩ := hindents.exists_append
  obtain ⟨rest₂, rfl, hopened⟩ := hquote.exists_cons rfl
  obtain ⟨written, rest₃, rfl, hwritten, hclosing⟩ := hopened.exists_append
  obtain ⟨after, rfl, -⟩ := hclosing.exists_cons rfl
  refine ⟨written, after ++ (f.eol ++ "\x7d" ++ f.eol).toList, hwritten,
    .intro hedit hwrites hfront hbefore hwritten ?_⟩
  rw [toList_moduleBlock, hrest]
  simp only [List.append_assoc, List.cons_append]

/-- How a literal is read that names a module in place of another one: in terms of the text of the
other literal and the name that it denotes. -/
structure ReadsAnew (id text name : String) (literal : List Char) : Prop where
  /-- without a backslash, as the module that the name resolves to just if that is plain -/
  unescaped (hescape : '\\' ∉ text.toList) :
    ReadsAs literal (resolve id name) ↔ IsPlain (resolve id name).toList
  /-- the name of a package, as that just if it can be written between single quotes -/
  package (hline : ∀ c ∈ text.toList, isLineBreak c = false)
    (hwritten : isRelative (unquoted text) = false) (hname : isRelative name = false) :
    ReadsAs literal (resolve id name) ↔ IsQuotable (unquoted text).toList
  /-- a relative name, as the module that it resolves to if its escapes leave its segments -/
  relative (hid : IsPlain id.toList) (hwritten : isRelative (unquoted text) = true)
    (hname : isRelative name = true)
    (hsegments : List.Forall₂ SegmentFor (Path.segments (unquoted text)) (Path.segments name)) :
    ReadsAs literal (resolve id name)

theorem readsAnew_of_indents {text name : String} {indent written after : List Char}
    (hindent : '\\' ∉ indent) (hliteral : literal? text.toList = some (units name.toList, []))
    (hwritten : Indents indent (resolve id (unquoted text)).toList written) :
    ReadsAnew id text name ('\'' :: (written ++ '\'' :: after)) where
  unescaped hescape := by
    rw [unquoted_of_literal hliteral hescape] at hwritten
    exact readsAs_iff_isPlain hindent hwritten
  package hline hpackage hname := by
    obtain ⟨mark, last, hscan, hlast, hmarks⟩ := exists_scan_of_literal hliteral
    rw [resolve_of_not_isRelative _ _ hpackage] at hwritten
    rw [resolve_of_not_isRelative _ _ hname]
    have hself : written = (unquoted text).toList := hwritten.eq_self fun c hc => by
      refine hline c ?_
      rw [hmarks]
      exact List.mem_cons_of_mem _ (List.mem_append_left _ hc)
    subst hself
    exact readsAs_iff_isQuotable hscan hlast
  relative hid hrelative hname hsegments := by
    have hstands : StandsFor (resolve id (unquoted text)) (resolve id name) :=
      standsFor_resolve hid hrelative hname hsegments
    rw [hwritten.eq_self hstands.1]
    exact hstands.readsAs

/-- The block of a file that is an external module holds its content. -/
theorem assemble_of_moduleContent {a : Assembly} {file : SourceFile} {content : String}
    (hincluded : a.isExcluded file.fileName = false) (hid : a.moduleId file.fileName = .ok id)
    (hmodule : isExternalModule (a.grammar file.text.toList) = true)
    (hcontent :
      moduleContent id (encode file.text.toList) (a.grammar file.text.toList) = .ok content) :
    a.assemble file = .ok (a.format.moduleBlock id content) := by
  simp only [Assembly.assemble, hincluded, hid, bind, Except.bind, hmodule, hcontent]
  rfl

/-- The literals that a block writes, read with the rules of the language: the identifier behind
`declare module` is read as itself just if all its characters are plain, and each change takes a
modifier away or writes a literal that is read as `ReadsAnew` says. -/
theorem literals_denote (f : Format) (id : String) {cs : List Char} {tree : Node}
    (heol : EndsLine f.eol.toList) (hindent : '\\' ∉ f.indent.toList) (hfits : tree.Fits cs)
    (hends : ∀ p ∈ placed .root tree, p.1.label.type = "ambient_declaration" → EndsWithLast p.1) :
    ∃ content edits, moduleContent id (encode cs) tree = .ok content ∧
      (∀ (a : Assembly) (file : SourceFile), a.format = f → a.isExcluded file.fileName = false →
        a.moduleId file.fileName = .ok id → file.text.toList = cs → a.grammar cs = tree →
        isExternalModule tree = true → a.assemble file = .ok (f.moduleBlock id content)) ∧
      List.Forall₂ (fun p e => Change id (encode cs) p.1 p.2 e)
        ((placed .root tree).filter fun p => IsChanged id (encode cs) p) edits ∧
      (∃ rest, (f.moduleBlock id content).toList = "declare module ".toList ++ rest ∧
        (ReadsAs rest id ↔ IsPlain id.toList)) ∧
      ∀ (i : Nat) (p : Located) (e : Edit),
        ((placed .root tree).filter fun p => IsChanged id (encode cs) p)[i]? = some p →
        edits[i]? = some e →
        e.text = "" ∨
        ∃ named literal, Emits f id (encode cs) (f.moduleBlock id content) edits i p.1 named literal ∧
          ∀ text name, textOf (encode cs) named = .ok text →
            literal? text.toList = some (units name.toList, []) →
            ReadsAnew id text name literal := by
  obtain ⟨content, hmodule, hcontent, hinOrder⟩ := exists_content id hfits hends
  have hchanges : List.Forall₂ (fun p e => Change id (encode cs) p.1 p.2 e)
      ((placed .root tree).filter fun p => IsChanged id (encode cs) p)
      (editsIn id (encode cs) .root tree) := forall₂_editsIn (encode cs) rfl
  have hinOrder' : InOrder 0 (encode cs).length (editsIn id (encode cs) .root tree) := by
    have hrest : InOrder tree.stop (encode cs).length [] := hfits.isBoundary_stop.le_length
    simpa using (hinOrder.of_le (Nat.zero_le _)).append hrest
  refine ⟨content, editsIn id (encode cs) .root tree, hmodule, ?_, hchanges, ?_, ?_⟩
  · rintro a file rfl hincluded hid rfl hgrammar hexternal
    subst hgrammar
    exact assemble_of_moduleContent hincluded hid hexternal hmodule
  · refine ⟨'\'' :: (id.toList ++ '\'' :: (" \x7b" ++ f.eol ++ f.indent).toList ++
      (f.reindent content).toList ++ (f.eol ++ "\x7d" ++ f.eol).toList), ?_, ?_⟩
    · rw [toList_moduleBlock, opening]
      simp
    · rw [List.append_assoc, List.append_assoc, List.cons_append]
      exact readsAs_iff_isPlain hindent (Indents.refl _)
  · intro i p e hp he
    have hchange : Change id (encode cs) p.1 p.2 e := by
      obtain ⟨hi, rfl⟩ := List.getElem?_eq_some_iff.1 hp
      obtain ⟨hi', rfl⟩ := List.getElem?_eq_some_iff.1 he
      exact hchanges.get hi hi'
    refine hchange.writes.imp_right ?_
    rintro ⟨named, lead, value, hwrites⟩
    obtain ⟨front, back, hsplit, hfront⟩ := exists_content_around hcontent hinOrder'
      (fun e he => isBoundary_of_mem_editsIn hfits rfl he) he
    obtain ⟨written, after, hwritten, hemits⟩ := exists_emits heol hsplit hfront he hwrites
    refine ⟨named, _, hemits, fun text name htext hliteral => ?_⟩
    have hvalue : value = unquoted text := by
      have hsame := hwrites.2
      rw [valueOf, htext] at hsame
      exact (Except.ok.inj hsame).symm
    subst hvalue
    exact readsAnew_of_indents hindent hliteral hwritten

/-! ## An import -/

/-- The text of a file that imports a default from the module beside it. -/
def importSource : String :=
  "import A from './a'"

/-- The literal that names the module. -/
def importedName : Node :=
  .node { type := "string", field := some "source" } ⟨14, 19⟩ []

/-- The import. -/
def importOfDefault : Node :=
  .node { type := "import_statement" } ⟨0, 19⟩
    [.node { type := "import_clause" } ⟨7, 8⟩ [.node { type := "identifier" } ⟨7, 8⟩ []],
      importedName]

/-- The tree of the file. -/
def importTree : Node :=
  .node { type := "program" } ⟨0, 19⟩ [importOfDefault]

theorem fits_importTree : importTree.Fits importSource.toList := by
  simp only [importTree, importOfDefault, importedName, Tree.Fits, Tree.FitAll, Tree.start_node,
    Tree.stop_node]
  decide

/-- In the module `lib/m`, the block and the import in it are read as `lib/m` and `lib/a`. -/
theorem literals_denote_import :
    ∃ content edits rest literal, moduleContent "lib/m" (encode importSource.toList) importTree =
        .ok content ∧
      (({} : Format).moduleBlock "lib/m" content).toList = "declare module ".toList ++ rest ∧
      ReadsAs rest "lib/m" ∧
      Emits {} "lib/m" (encode importSource.toList) (({} : Format).moduleBlock "lib/m" content) edits 0
        importOfDefault importedName literal ∧
      ReadsAs literal "lib/a" := by
  obtain ⟨content, edits, hcontent, -, hchanges, ⟨rest, hblock, hrest⟩, hliterals⟩ :=
    literals_denote {} "lib/m" endsLine_feed (by decide) fits_importTree (by decide)
  have hfilter : ((placed .root importTree).filter fun p =>
      IsChanged "lib/m" (encode importSource.toList) p) =
        [(importOfDefault, .inside importTree .root [])] := by rfl
  rw [hfilter] at hchanges hliterals
  obtain ⟨e, none, hchange, hnone, rfl⟩ := List.forall₂_cons_left_iff.1 hchanges
  obtain rfl := List.forall₂_nil_left_iff.1 hnone
  have hedit : change? "lib/m" (encode importSource.toList) importOfDefault
      (.inside importTree .root []) = some ⟨⟨0, 19⟩, "import A from 'lib/a';"⟩ := by rfl
  obtain rfl := Option.some.inj (hedit.symm.trans (change?_eq_some_iff.2 hchange))
  rcases hliterals 0 _ _ rfl rfl with hempty | ⟨named, literal, hemits, hreads⟩
  · exact absurd hempty (by decide)
  · obtain rfl : named = importedName := by
      cases hemits with
      | intro _ hwrites => exact (Option.some.inj hwrites.1).symm
    have hanew : ReadsAnew "lib/m" "'./a'" "./a" literal :=
      hreads "'./a'" "./a" (by decide +kernel) (by decide +kernel)
    have hresolve : resolve "lib/m" "./a" = "lib/a" := by decide +kernel
    have hliteral := hanew.unescaped (by decide)
    rw [hresolve] at hliteral
    exact ⟨content, _, rest, literal, hcontent, hblock, hrest.2 (by decide), hemits,
      hliteral.2 (by decide)⟩

/-- The tree of a file that imports a default from the package `it's-b`. -/
def quotedImportTree : Node :=
  .node { type := "program" } ⟨0, 23⟩ [.node { type := "import_statement" } ⟨0, 23⟩
    [.node { type := "import_clause" } ⟨7, 8⟩ [.node { type := "identifier" } ⟨7, 8⟩ []],
      .node { type := "string", field := some "source" } ⟨14, 22⟩ []]]

/-- With a quote in the name of the file and of the package that it imports, both literals of the
block are read as what stands before the quote. -/
theorem literals_misread :
    let a : Assembly := { grammar := fun _ => quotedImportTree, base := "/p", package := "lib" }
    let text := "import A from \"it's-b\";"
    let block := "declare module 'lib/it's' \x7b\n\timport A from 'it's-b';\n\x7d\n"
    a.moduleId "/p/it's.d.ts" = .ok "lib/it's" ∧
      a.assemble ⟨"/p/it's.d.ts", text, false⟩ = .ok block ∧
      literal? (text.toList.drop 14) = some (units "it's-b".toList, [';']) ∧
      ModuleId.resolve "lib/it's" "it's-b" = "it's-b" ∧
      literal? (block.toList.drop 15) = some (units "lib/it".toList, block.toList.drop 23) ∧
      literal? (block.toList.drop 43) = some (units "it".toList, block.toList.drop 47) ∧
      ¬ ReadsAs (block.toList.drop 15) "lib/it's" ∧
      ¬ ReadsAs (block.toList.drop 43) "it's-b" := by
  unfold ReadsAs
  decide +kernel

end DeclBundle.Declaration
