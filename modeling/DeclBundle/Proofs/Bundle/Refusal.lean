import DeclBundle.Proofs.Bundle.Answer
import DeclBundle.Proofs.Bundle.Closing
set_option autoImplicit false

/-!
# A stream that refuses a text

A run that has a plan plays one script on its document, whatever document that is, and closes it
(`exists_script`).  What the script does on a stream that refuses a text follows from where in the
script that text stands: the texts before it stay, and nothing is offered behind it; a refusal behind
the last text is never met (`Script.offersOneByOne`).  What the compiler is asked for does not depend
on the document at all (`requests_generate`).
-/

namespace DeclBundle

namespace Document

/-- The document over a stream that refuses the text with a number. -/
def refusing (d : Document) (number : Nat) : Document :=
  { d with stream := { d.stream with refused := some number } }

end Document

namespace Bundle

open DeclBundle.Configuration (Options)

variable {grammar : Declaration.Grammar} {r : Run} {d : Document} {s : Script}

/-! ## Scripts on a stream that refuses a text -/

theorem Script.playOn_of_isClosed (s : Script) (h : d.isClosed = true) :
    s.playOn d =
      (if s.texts = [] then s.ending else .error (.closedDocument d.name), d) := by
  unfold playOn ending
  rw [d.writeAll_of_isClosed h]
  by_cases hnil : s.texts = []
  · simp only [if_pos hnil]
    cases s.fault <;> rfl
  · simp only [if_neg hnil]

/-- A script whose texts are all taken leaves them and ends as it says. -/
theorem Script.playOn_of_taken (hopen : d.isClosed = false)
    (htaken : ∀ n, d.stream.refused = some n →
      n ≤ d.stream.offers ∨ d.stream.offers + s.texts.length < n) :
    s.playOn d = (s.ending, d.after s.texts) := by
  unfold playOn ending
  rw [Document.writeAll_of_taken hopen htaken]
  cases s.fault <;> rfl

/-- A script of which a text is refused ends there. -/
theorem Script.playOn_of_refused {n : Nat} (hopen : d.isClosed = false)
    (hrefused : d.stream.refused = some (d.stream.offers + n + 1)) (hn : n < s.texts.length) :
    s.playOn d =
      (.error (.files ⟨.noSpace, none⟩), (d.after (s.texts.take n)).spurned) := by
  unfold playOn
  rw [Document.writeAll_of_refused hopen hrefused hn]

/-! ## The script of a run -/

/-- What a script ends with and leaves when the document is closed behind it. -/
def Script.closedOn (s : Script) (d : Document) : Except Fault Unit × Option Document :=
  match (s.playOn d).2.close with
  | (.ok _, closed) => ((s.playOn d).1, some closed)
  | (.error e, closed) => (.error e, some closed)

/-- What a run offers to its document once there is a plan.  A compiler that fails ends it at
once. -/
def plannedScript (compiler : Compiler) (o : Options) (p : Plan) (made : System) : Script :=
  match compiler p.request made with
  | .ok c _ => compilationScript o p.assembly c
  | .error e _ => ⟨[], some e⟩

theorem observe_ask (compiler : Compiler) (o : Options) (p : Plan) (hd : r.document = some d) :
    observe (Step.ask compiler p.request >>= writeCompilation o p.assembly) r =
      (((plannedScript compiler o p r.system).playOn d).1,
        some ((plannedScript compiler o p r.system).playOn d).2) := by
  unfold observe plannedScript
  simp only [Step.ask, Step.ofAction, bind, EStateM.bind, Step.modify_eq]
  cases compiler p.request r.system with
  | error e asked =>
    simp only [Script.playOn, Document.writeAll, hd]
  | ok c asked =>
    exact performs_writeCompilation o p.assembly c
      { r with requests := r.requests ++ [p.request], system := asked } d hd

theorem observe_closing_ask (compiler : Compiler) (o : Options) (p : Plan)
    (hd : r.document = some d) :
    observe (Step.closing (Step.ask compiler p.request >>= writeCompilation o p.assembly)) r =
      (plannedScript compiler o p r.system).closedOn d :=
  observe_closing (observe_ask compiler o p hd)

/-- What a run with a plan ends with and leaves of its document. -/
theorem observe_generate_of_plan (compiler : Compiler) {o : Options} {p : Plan} {read made : System}
    (hproject : withProject r.options r.system = .ok o read)
    (hplan : plan grammar o read = .ok p made)
    (hd : r.document = some d) :
    observe (generate grammar compiler) r = (plannedScript compiler o p made).closedOn d := by
  have hclosing := observe_closing_ask (r := { r with options := o, system := made }) compiler o p hd
  unfold observe at hclosing ⊢
  rwa [generate_eq_closing compiler hproject hplan hd]

/-- A run that has a plan plays one script on its document, whatever document that is. -/
theorem exists_script (compiler : Compiler) (h : IsPlanned grammar r) :
    ∃ s : Script, ∀ d, observe (generate grammar compiler) { r with document := some d } =
      s.closedOn d := by
  obtain ⟨o, read, p, made, hproject, hplan⟩ := h
  refine ⟨plannedScript compiler o p made, fun d => ?_⟩
  exact observe_generate_of_plan (r := { r with document := some d }) compiler hproject hplan rfl

/-! ## What writing carries along -/

section

variable {R : Run → Run → Prop} (hR : IsCourse R)
  (hlog : ∀ message, Carries R (Step.progress message))
  (hdocument : ∀ use : Document → Except Fault Unit × Document, Carries R (Step.ofDocument use))

include hR hlog hdocument

theorem carries_writeFile (a : Assembly) (file : CompiledFile) : Carries R (writeFile a file) := by
  unfold writeFile
  split
  · refine (hlog _).bind hR fun _ => ?_
    cases declarationOf file with
    | error e => exact carries_throw hR e
    | ok d => exact hdocument _
  · exact carries_pure hR ()

theorem carries_writeMain (f : Format) (o : Options) : Carries R (writeMain f o) := by
  unfold writeMain
  cases nonempty? o.main with
  | none => exact carries_pure hR ()
  | some main => exact (hdocument _).bind hR fun _ => hlog _

/-- Writing a compilation does nothing but log and use the document. -/
theorem carries_writeCompilation (o : Options) (a : Assembly) (c : Compilation) :
    Carries R (writeCompilation o a c) := by
  unfold writeCompilation
  -- complaints stop the step before its first part, so what follows is no `bind` until they are
  -- told apart
  cases c.diagnostics.isEmpty with
  | false => exact carries_throw hR _
  | true =>
    refine (carries_forM hR (fun path => ?_) o.externs).bind hR fun _ => ?_
    · exact (hlog _).bind hR fun _ => hdocument _
    · refine (hlog _).bind hR fun _ => ?_
      refine (carries_forM hR (carries_writeFile hR hlog hdocument a) c.files).bind hR fun _ => ?_
      exact (carries_writeMain hR hlog hdocument a.format o).bind hR fun _ => hlog _

end

/-! ## What the compiler is asked for -/

/-- The run that a step leaves, however the step ends. -/
def left {α : Type} (step : Step α) (r : Run) : Run :=
  match step r with
  | .ok _ r => r
  | .error _ r => r

theorem left_eq_after {α : Type} (step : Step α) : left step = after step := by
  funext r
  unfold left after
  cases step r <;> rfl

/-- Whether a step asks the compiler for some requests, and for nothing else. -/
def Asks {α : Type} (step : Step α) (requests : List Request) : Prop :=
  ∀ r, (left step r).requests = r.requests ++ requests

theorem asks_nothing_iff {α : Type} {step : Step α} :
    Asks step [] ↔ Carries (fun r r' => r'.requests = r.requests) step := by
  simp [Asks, Carries, left_eq_after]

theorem asks_ofAction {α : Type} (a : Action α) : Asks (Step.ofAction a) [] := by
  apply asks_nothing_iff.2
  intro r
  unfold after Step.ofAction
  cases a r.system <;> rfl

theorem asks_ofDocument {α : Type} (use : Document → Except Fault α × Document) :
    Asks (Step.ofDocument use) [] := by
  apply asks_nothing_iff.2
  intro r
  unfold after Step.ofDocument
  rcases use (r.document.getD {}) with ⟨_ | _, next⟩ <;> rfl

/-- What follows a step and asks for nothing leaves it at what the step asks for. -/
theorem Asks.bind {α β : Type} {step : Step α} {next : α → Step β} {requests : List Request}
    (hstep : Asks step requests) (hnext : ∀ x, Asks (next x) []) :
    Asks (step >>= next) requests := by
  intro r
  have hfirst := hstep r
  rw [left_eq_after] at hfirst
  rw [left_eq_after, after_bind]
  cases answer step r with
  | error e => exact hfirst
  | ok x => exact (asks_nothing_iff.1 (hnext x) _).trans hfirst

/-- Writing a compilation asks the compiler for nothing more. -/
theorem asks_writeCompilation (o : Options) (a : Assembly) (c : Compilation) :
    Asks (writeCompilation o a c) [] :=
  asks_nothing_iff.2 (carries_writeCompilation (isCourse_view Run.requests)
    (fun _ => asks_nothing_iff.1 (asks_ofAction _)) (fun _ => asks_nothing_iff.1 (asks_ofDocument _))
    o a c)

theorem asks_ask (compiler : Compiler) (request : Request) :
    Asks (Step.ask compiler request) [request] := by
  intro r
  have hasked := asks_ofAction (compiler request) { r with requests := r.requests ++ [request] }
  rw [List.append_nil] at hasked
  exact hasked

theorem asks_closeDocument : Asks Step.closeDocument [] := by
  apply asks_nothing_iff.2
  intro r
  unfold after Step.closeDocument
  dsimp only
  cases (r.document.getD {}).close.1 <;> rfl

theorem left_closing {α : Type} (step : Step α) (r : Run) :
    left (Step.closing step) r = left Step.closeDocument (left step r) := by
  unfold left Step.closing
  cases step r with
  | error e used =>
    dsimp only
    cases Step.closeDocument used <;> rfl
  | ok x used =>
    dsimp only
    cases Step.closeDocument used <;> rfl

theorem asks_closing {α : Type} {step : Step α} {requests : List Request} (h : Asks step requests) :
    Asks (Step.closing step) requests := by
  intro r
  have hclosed := asks_closeDocument (left step r)
  rw [left_closing, hclosed, List.append_nil, h]

/-- Once its document is there, a run asks the compiler for what has been planned, and for nothing
else. -/
theorem asks_closing_ask (compiler : Compiler) (o : Options) (p : Plan) :
    Asks (Step.closing (Step.ask compiler p.request >>= writeCompilation o p.assembly))
      [p.request] :=
  asks_closing ((asks_ask compiler p.request).bind (asks_writeCompilation o p.assembly))

/-- A run with another document is refused as the run itself. -/
theorem Refused.withDocument {fault : Fault} (h : Refused grammar r fault) (d : Document) :
    Refused grammar { r with document := some d } fault := by
  cases h with
  | project h => exact .project h
  | plan h hplan => exact .plan h hplan

/-- What a run with a plan leaves is what writing leaves once the document is closed. -/
theorem left_generate_of_plan (compiler : Compiler) {o : Options} {p : Plan} {read made : System}
    (hproject : withProject r.options r.system = .ok o read)
    (hplan : plan grammar o read = .ok p made)
    (hd : r.document = some d) :
    left (generate grammar compiler) r =
      left (Step.closing (Step.ask compiler p.request >>= writeCompilation o p.assembly))
        { r with options := o, system := made } := by
  unfold left
  rw [generate_eq_closing compiler hproject hplan hd]

/-- What a run asks the compiler for does not depend on its document. -/
theorem requests_generate (compiler : Compiler) (r : Run) (d d' : Document) :
    (left (generate grammar compiler) { r with document := some d }).requests =
      (left (generate grammar compiler) { r with document := some d' }).requests := by
  rcases isPlanned_or_refused grammar r with ⟨o, read, p, made, hproject, hplan⟩ | ⟨fault, hrefused⟩
  · have hrequests : ∀ d,
        (left (generate grammar compiler) { r with document := some d }).requests =
          r.requests ++ [p.request] := by
      intro d
      rw [left_generate_of_plan (r := { r with document := some d }) compiler hproject hplan rfl]
      exact asks_closing_ask compiler o p _
    rw [hrequests d, hrequests d']
  · have hrequests : ∀ d,
        (left (generate grammar compiler) { r with document := some d }).requests = r.requests := by
      intro d
      obtain ⟨ended, hgenerate, -, hrequests⟩ := (hrefused.withDocument d).generate_eq compiler
      unfold left
      rw [hgenerate, ← hrequests]
    rw [hrequests d, hrequests d']

/-! ## Closing behind a script -/

theorem Script.closedOn_of_isClosed (s : Script) (h : d.isClosed = true) :
    s.closedOn d =
      (if s.texts = [] then s.ending else .error (.closedDocument d.name), some d) := by
  unfold closedOn
  rw [s.playOn_of_isClosed h, Document.close_of_isClosed h]

/-- A document that is left open, over a stream that does not complain, is closed well. -/
theorem Script.closedOn_of_isOpen {result : Except Fault Unit} {used : Document}
    (hplay : s.playOn d = (result, used)) (hopen : used.isClosed = false)
    (hwilling : used.stream.IsWilling) : s.closedOn d = (result, some used.shut) := by
  unfold closedOn
  rw [hplay]
  dsimp only
  rw [Document.close_of_willing hopen hwilling]

/-- Whether a use of a document offers it some texts one after the other: a text that is refused is
the last one offered, and a refusal behind them all changes nothing. -/
structure OffersOneByOne (use : Document → Except Fault Unit × Option Document) (d : Document)
    (texts : List String) (result : Except Fault Unit) (last : Document) : Prop where
  taken : use d = (result, some last)
  contents : last.contents = d.contents ++ String.join texts
  offers : last.stream.offers = d.stream.offers + texts.length
  refused : ∀ n < texts.length, ∃ cut,
    use (d.refusing (d.stream.offers + n + 1)) = (.error (.files ⟨.noSpace, none⟩), some cut) ∧
    cut.contents = d.contents ++ String.join (texts.take n) ∧
    cut.stream.offers = d.stream.offers + n + 1 ∧
    d.ClosedOnceMore cut
  missed : ∀ n, texts.length ≤ n →
    use (d.refusing (d.stream.offers + n + 1)) =
      (result, some (last.refusing (d.stream.offers + n + 1)))

/-- A script that is played on a document which can be closed offers texts one by one: its own, or
none where the document is closed already. -/
theorem Script.offersOneByOne (s : Script) (hrefuses : d.stream.refused = none)
    (hwilling : d.stream.IsWilling) :
    ∃ texts result last, OffersOneByOne s.closedOn d texts result last := by
  cases hclosed : d.isClosed with
  | true =>
    refine ⟨[], _, d, s.closedOn_of_isClosed hclosed, ?_, rfl, ?_, ?_⟩
    · exact (String.append_empty).symm
    · intro n hn
      exact absurd hn (Nat.not_lt_zero n)
    · intro n _
      exact s.closedOn_of_isClosed hclosed
  | false =>
    obtain ⟨hflushes, hcloses⟩ := hwilling
    refine ⟨s.texts, s.ending, (d.after s.texts).shut, ?_, rfl, rfl, ?_, ?_⟩
    · refine Script.closedOn_of_isOpen (s.playOn_of_taken hclosed ?_) hclosed ⟨hflushes, hcloses⟩
      intro n hn
      rw [hrefuses] at hn
      cases hn
    · intro n hn
      refine ⟨_, Script.closedOn_of_isOpen (s.playOn_of_refused hclosed rfl hn) hclosed
        ⟨hflushes, hcloses⟩, rfl, ?_, rfl, rfl, rfl⟩
      change d.stream.offers + (s.texts.take n).length + 1 = d.stream.offers + n + 1
      rw [List.length_take_of_le (Nat.le_of_lt hn)]
    · intro n hn
      have hplay : s.playOn (d.refusing (d.stream.offers + n + 1)) =
          (s.ending, (d.refusing (d.stream.offers + n + 1)).after s.texts) := by
        refine s.playOn_of_taken hclosed ?_
        intro m hm
        obtain rfl := Option.some.inj hm
        right
        change d.stream.offers + s.texts.length < d.stream.offers + n + 1
        omega
      exact Script.closedOn_of_isOpen hplay hclosed ⟨hflushes, hcloses⟩

/-- A run without a plan offers nothing. -/
theorem Refused.offersOneByOne (compiler : Compiler) {fault : Fault} (h : Refused grammar r fault)
    (d : Document) :
    OffersOneByOne (fun d => observe (generate grammar compiler) { r with document := some d }) d []
      (.error fault) d where
  taken := (h.withDocument d).observe_generate compiler
  contents := (String.append_empty).symm
  offers := rfl
  refused n hn := absurd hn (Nat.not_lt_zero n)
  missed _ _ := (h.withDocument (d.refusing _)).observe_generate compiler

/-! ## Runs on a stream that refuses a text -/

/-- A run on a document that can be flushed and closed writes some texts one after the other while the
stream refuses none of them.  If the stream refuses one of these texts, the run ends with the fault of
the stream, and the document, which is closed once, has the texts before it and is offered no other.
If the stream would refuse a later text, the run ends as it does otherwise, with the same text and
after asking the compiler for the same. -/
theorem generate_refusing (grammar : Declaration.Grammar) (compiler : Compiler) (r : Run)
    (d : Document) (hrefuses : d.stream.refused = none) (hwilling : d.stream.IsWilling) :
    ∃ texts result last,
      observe (generate grammar compiler) { r with document := some d } = (result, some last) ∧
      last.contents = d.contents ++ String.join texts ∧
      last.stream.offers = d.stream.offers + texts.length ∧
      ∀ n, 1 ≤ n →
        (n ≤ texts.length → ∃ cut,
          observe (generate grammar compiler)
              { r with document := some (d.refusing (d.stream.offers + n)) } =
            (.error (.files ⟨.noSpace, none⟩), some cut) ∧
          cut.contents = d.contents ++ String.join (texts.take (n - 1)) ∧
          cut.stream.offers = d.stream.offers + n ∧
          d.ClosedOnceMore cut) ∧
        (texts.length < n →
          observe (generate grammar compiler)
              { r with document := some (d.refusing (d.stream.offers + n)) } =
            (result, some (last.refusing (d.stream.offers + n))) ∧
          (left (generate grammar compiler)
              { r with document := some (d.refusing (d.stream.offers + n)) }).requests =
            (left (generate grammar compiler) { r with document := some d }).requests) := by
  have hoffers : ∃ texts result last, OffersOneByOne
      (fun d => observe (generate grammar compiler) { r with document := some d }) d texts result
        last := by
    rcases isPlanned_or_refused grammar r with hplanned | ⟨fault, hrefused⟩
    · obtain ⟨s, hs⟩ := exists_script compiler hplanned
      rw [funext hs]
      exact s.offersOneByOne hrefuses hwilling
    · exact ⟨[], .error fault, d, hrefused.offersOneByOne compiler d⟩
  obtain ⟨texts, result, last, htexts⟩ := hoffers
  refine ⟨texts, result, last, htexts.taken, htexts.contents, htexts.offers, ?_⟩
  intro n hn
  obtain ⟨n, rfl⟩ := Nat.exists_eq_add_of_le' hn
  constructor
  · intro hlength
    exact htexts.refused n hlength
  · intro hlength
    exact ⟨htexts.missed n (Nat.le_of_lt_succ hlength), requests_generate compiler r _ _⟩

/-- A run that writes a reference and a block before it comes to a file without a declaration ends
with the fault of the stream if that refuses the block, and with the complaint of the compiler if it
would refuse a text behind the block. -/
theorem generate_refusing_skipped :
    (∃ cut, observe (generate plainGrammar fun _ => pure skippedInside)
        { plainRun with document := some (({} : Document).refusing 2) } =
          (.error (.files ⟨.noSpace, none⟩), some cut) ∧
        cut.stream.offers = 2 ∧ cut.stream.closes = 1) ∧
      (observe (generate plainGrammar fun _ => pure skippedInside)
        { plainRun with document := some (({} : Document).refusing 3) }).1 =
          .error (.emission []) := by
  obtain ⟨texts, result, last, hrun, -, hoffers, htexts⟩ :=
    generate_refusing plainGrammar (fun _ => pure skippedInside) plainRun {} rfl ⟨rfl, by simp⟩
  have hrun' : (observe (generate plainGrammar fun _ => pure skippedInside) plainRun).1 =
        .error (.emission []) ∧
      (observe (generate plainGrammar fun _ => pure skippedInside) plainRun).2.map
        (fun d => d.stream.offers) = some 2 := by
    decide +kernel
  have hplain : observe (generate plainGrammar fun _ => pure skippedInside) plainRun =
      (result, some last) := hrun
  rw [hplain] at hrun'
  obtain ⟨rfl, hlast⟩ := hrun'
  have hlength : texts.length = 2 := by
    calc texts.length = 0 + texts.length := (Nat.zero_add _).symm
      _ = last.stream.offers := hoffers.symm
      _ = 2 := Option.some.inj hlast
  constructor
  · obtain ⟨cut, hcut, -, hoffers, hclosed⟩ := (htexts 2 (by omega)).1 (by omega)
    exact ⟨cut, hcut, hoffers, hclosed.closes⟩
  · exact congrArg Prod.fst ((htexts 3 (by omega)).2 (by omega)).1

end Bundle

end DeclBundle
