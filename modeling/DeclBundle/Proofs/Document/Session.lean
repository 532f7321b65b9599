import DeclBundle.Proofs.Document.Writing
set_option autoImplicit false

/-!
# Sessions with documents

A session opens documents over streams, writes to them, closes them and uses them in scopes, where
any write, any flush and any closing may fail.  A step that ends in a fault ends the scope that it is
in, but not the session.  Whatever the steps are, each document is closed just if its stream is, a
stream is closed once at most, and it holds the texts that have been taken and nothing else
(`Recorded.IsSound`, kept by every step in `Use.run_isSound`).
-/

namespace DeclBundle.Session

/-! ## Steps -/

/-- What a step of a session raises. -/
inductive Raised where
  | fault (cause : Fault)
  /-- a fault that the user of a document raises -/
  | other (message : String)
  deriving DecidableEq, Repr

/-- A document with the texts that have been written to it without a fault, in order. -/
structure Recorded where
  document : Document
  taken : List String := []
  deriving DecidableEq, Repr

/-- The documents of a session, in the order in which they have been opened. -/
abbrev World := List Recorded

/-- A step of a session.  Documents are known by their number. -/
inductive Use where
  /-- opens a document over a stream, which may be one that fails -/
  | opens (name : String) (refused : Option Nat) (failsToFlush failsToClose : Bool)
  /-- changes which text the stream of a document refuses, and whether it complains when it is
  flushed or closed -/
  | disturb (index : Nat) (refused : Option Nat) (failsToFlush failsToClose : Bool)
  | write (index : Nat) (text : String)
  | close (index : Nat)
  | raise (message : String)
  /-- steps within the scope of a document, up to the first that raises something -/
  | scope (index : Nat) (body : List Use)

namespace Recorded

/-- Writes to the document. -/
def write (text : String) (r : Recorded) : Except Raised Unit × Recorded :=
  match r.document.write text with
  | (.ok _, d) => (.ok (), ⟨d, r.taken ++ [text]⟩)
  | (.error e, d) => (.error (.fault e), ⟨d, r.taken⟩)

/-- Leaves a scope of the document, in which the steps have given a result: the document is used no
further and closed. -/
def leave (result : Except Raised Unit) (r : Recorded) : Except Raised Unit × Recorded :=
  let (result, d) := r.document.during .fault fun d => (result, d)
  (result, { r with document := d })

/-- Closes the document. -/
def close (r : Recorded) : Except Raised Unit × Recorded :=
  let (result, d) := r.document.close
  (result.mapError .fault, { r with document := d })

/-- The document over a stream that fails in another way from now on. -/
def disturb (refused : Option Nat) (failsToFlush failsToClose : Bool) (r : Recorded) : Recorded :=
  { r with document := { r.document with stream := { r.document.stream with
      refused, failsToFlush, failsToClose } } }

end Recorded

/-- What a use of a document gives, and the documents behind it.  Where there is no such document,
nothing happens and the given result stays. -/
def World.on (w : World) (index : Nat) (result : Except Raised Unit)
    (use : Recorded → Except Raised Unit × Recorded) : Except Raised Unit × World :=
  match w[index]? with
  | none => (result, w)
  | some r => ((use r).1, w.set index (use r).2)

mutual

/-- What a step raises, and the documents behind it. -/
def Use.run : Use → World → Except Raised Unit × World
  | .opens name refused failsToFlush failsToClose, w =>
    (.ok (), w ++ [⟨{ name, stream := { refused, failsToFlush, failsToClose } }, []⟩])
  | .disturb index refused failsToFlush failsToClose, w =>
    w.on index (.ok ()) fun r => (.ok (), r.disturb refused failsToFlush failsToClose)
  | .write index text, w => w.on index (.ok ()) (Recorded.write text)
  | .close index, w => w.on index (.ok ()) Recorded.close
  | .raise message, w => (.error (.other message), w)
  | .scope index body, w =>
    let (result, next) := runAll body w
    next.on index result (Recorded.leave result)

/-- What steps raise that are taken one after the other, up to the first that raises something. -/
def runAll : List Use → World → Except Raised Unit × World
  | [], w => (.ok (), w)
  | use :: uses, w =>
    match use.run w with
    | (.ok _, next) => runAll uses next
    | (.error e, next) => (.error e, next)

end

/-- The documents behind a session, which goes on whatever a step raises. -/
def documents (steps : List Use) : World :=
  steps.foldl (fun w use => (use.run w).2) []

/-! ## What holds of every document -/

/-- Whether a document is closed just if its stream is, its stream has been closed once just if it
is and never more often, and it holds the texts that have been taken. -/
structure Recorded.IsSound (r : Recorded) : Prop where
  isClosed_eq : r.document.isClosed = r.document.stream.isClosed
  closes_le : r.document.stream.closes ≤ 1
  closes_iff : r.document.stream.closes = 1 ↔ r.document.isClosed = true
  contents_eq : r.document.contents = String.join r.taken

/-- Whether all documents are sound. -/
def World.IsSound (w : World) : Prop :=
  ∀ r ∈ w, r.IsSound

namespace Recorded

theorem IsSound.of_sameClosing {r next : Recorded} (h : r.IsSound)
    (hclosing : r.document.SameClosing next.document)
    (hcontents : next.document.contents = String.join next.taken) : next.IsSound where
  isClosed_eq := by rw [hclosing.isClosed, hclosing.stream_isClosed, h.isClosed_eq]
  closes_le := by
    rw [hclosing.closes]
    exact h.closes_le
  closes_iff := by
    rw [hclosing.closes, hclosing.isClosed]
    exact h.closes_iff
  contents_eq := hcontents

theorem IsSound.write {r : Recorded} (h : r.IsSound) (text : String) :
    (r.write text).2.IsSound := by
  have hclosing := r.document.write_closing text
  unfold Recorded.write
  rcases r.document.write_cases text with htaken | ⟨e, next, hrefused, hcontents⟩
  · rw [htaken] at hclosing ⊢
    refine h.of_sameClosing hclosing ?_
    simp [h.contents_eq, String.join_append]
  · rw [hrefused] at hclosing ⊢
    exact h.of_sameClosing hclosing (hcontents.trans h.contents_eq)

/-- The document when it has been closed. -/
def closed (r : Recorded) : Recorded :=
  { r with document := r.document.close.2 }

theorem IsSound.closed {r : Recorded} (h : r.IsSound) : r.closed.IsSound := by
  have hcontents : r.document.close.2.contents = String.join r.taken :=
    r.document.contents_close.trans h.contents_eq
  cases hclosed : r.document.isClosed with
  | true =>
    refine h.of_sameClosing ?_ hcontents
    rw [Recorded.closed, r.document.close_of_isClosed hclosed]
    exact .refl r.document
  | false =>
    have hmore := r.document.close_closed hclosed
    -- the stream of an open document has never been closed
    have hnone : r.document.stream.closes = 0 := by
      have hle := h.closes_le
      have hnot : r.document.stream.closes ≠ 1 := by
        intro hone
        have htrue := h.closes_iff.1 hone
        rw [hclosed] at htrue
        cases htrue
      omega
    have hone : r.document.close.2.stream.closes = 1 := by rw [hmore.closes, hnone]
    exact
      { isClosed_eq := hmore.isClosed.trans hmore.stream_isClosed.symm
        closes_le := Nat.le_of_eq hone
        closes_iff := iff_of_true hone hmore.isClosed
        contents_eq := hcontents }

/-- Leaving a scope closes the document and gives what the scope gave unless closing fails. -/
theorem leave_eq (result : Except Raised Unit) (r : Recorded) :
    r.leave result =
      (match r.document.close.1 with
        | .ok _ => result
        | .error e => .error (.fault e), r.closed) := by
  unfold leave
  rw [Document.during_eq]
  rfl

theorem IsSound.disturb {r : Recorded} (h : r.IsSound) (refused : Option Nat)
    (failsToFlush failsToClose : Bool) :
    (r.disturb refused failsToFlush failsToClose).IsSound :=
  h.of_sameClosing ⟨rfl, rfl, rfl⟩ h.contents_eq

theorem isSound_opened (name : String) (refused : Option Nat) (failsToFlush failsToClose : Bool) :
    IsSound ⟨{ name, stream := { refused, failsToFlush, failsToClose } }, []⟩ where
  isClosed_eq := rfl
  closes_le := Nat.zero_le 1
  closes_iff := by simp
  contents_eq := rfl

end Recorded

/-! ## What every step keeps -/

theorem World.IsSound.on {w : World} (h : w.IsSound) (index : Nat) (result : Except Raised Unit)
    {use : Recorded → Except Raised Unit × Recorded}
    (huse : ∀ r : Recorded, r.IsSound → (use r).2.IsSound) :
    (w.on index result use).2.IsSound := by
  unfold World.on
  cases hr : w[index]? with
  | none => exact h
  | some r =>
    intro next hnext
    rcases List.mem_or_eq_of_mem_set hnext with hold | rfl
    · exact h next hold
    · exact huse r (h r (List.mem_of_getElem? hr))

mutual

/-- Every step keeps all documents sound.  A scope keeps them as the steps in it do. -/
theorem Use.run_isSound : ∀ (use : Use) {w : World}, w.IsSound → (use.run w).2.IsSound
  | .opens name refused failsToFlush failsToClose, w, h => by
    intro r hr
    rcases List.mem_append.1 hr with hold | hnew
    · exact h r hold
    · rw [List.mem_singleton.1 hnew]
      exact Recorded.isSound_opened name refused failsToFlush failsToClose
  | .disturb index refused failsToFlush failsToClose, w, h =>
    h.on index _ fun _ hr => hr.disturb refused failsToFlush failsToClose
  | .write index text, w, h => h.on index _ fun _ hr => hr.write text
  | .close index, w, h => h.on index _ fun _ hr => hr.closed
  | .raise message, w, h => h
  | .scope index body, w, h => by
    refine World.IsSound.on (runAll_isSound body h) index _ ?_
    intro r hr
    rw [Recorded.leave_eq]
    exact hr.closed

theorem runAll_isSound : ∀ (uses : List Use) {w : World}, w.IsSound → (runAll uses w).2.IsSound
  | [], w, h => h
  | use :: uses, w, h => by
    have hfirst := use.run_isSound h
    unfold runAll
    rcases hrun : use.run w with ⟨_ | _, next⟩
    · rwa [hrun] at hfirst
    · rw [hrun] at hfirst
      exact runAll_isSound uses hfirst

end

theorem isSound_documents (steps : List Use) : (documents steps).IsSound := by
  have hfold : ∀ (rest : List Use) (w : World), w.IsSound →
      (rest.foldl (fun w use => (use.run w).2) w).IsSound := by
    intro rest
    induction rest with
    | nil => exact fun w h => h
    | cons use rest ih => exact fun w h => ih _ (use.run_isSound h)
  exact hfold steps [] fun r hr => by cases hr

/-! ## Single documents -/

theorem World.on_eq {w : World} {index : Nat} {r : Recorded} (hr : w[index]? = some r)
    (result : Except Raised Unit) (use : Recorded → Except Raised Unit × Recorded) :
    w.on index result use = ((use r).1, w.set index (use r).2) := by
  rw [World.on, hr]

theorem World.set_eq_self {w : World} {index : Nat} {r : Recorded} (hr : w[index]? = some r) :
    w.set index r = w := by
  obtain ⟨hindex, rfl⟩ := List.getElem?_eq_some_iff.1 hr
  exact List.set_getElem_self hindex

theorem World.length_le_on (w : World) (index : Nat) (result : Except Raised Unit)
    (use : Recorded → Except Raised Unit × Recorded) :
    w.length ≤ (w.on index result use).2.length := by
  unfold World.on
  cases w[index]? with
  | none => exact Nat.le_refl _
  | some r => exact Nat.le_of_eq List.length_set.symm

mutual

/-- No document vanishes by a step. -/
theorem Use.length_le_run : ∀ (use : Use) (w : World), w.length ≤ (use.run w).2.length
  | .opens name refused failsToFlush failsToClose, w => by
    simp [Use.run]
  | .disturb index refused failsToFlush failsToClose, w => w.length_le_on index _ _
  | .write index text, w => w.length_le_on index _ _
  | .close index, w => w.length_le_on index _ _
  | .raise message, w => Nat.le_refl _
  | .scope index body, w => Nat.le_trans (length_le_runAll body w) (World.length_le_on _ index _ _)

theorem length_le_runAll : ∀ (uses : List Use) (w : World), w.length ≤ (runAll uses w).2.length
  | [], w => Nat.le_refl _
  | use :: uses, w => by
    have hfirst := use.length_le_run w
    unfold runAll
    rcases hrun : use.run w with ⟨_ | _, next⟩
    · rwa [hrun] at hfirst
    · rw [hrun] at hfirst
      exact Nat.le_trans hfirst (length_le_runAll uses next)

end

/-- Behind every session, whatever its streams have refused, each document is sound.  A document
that is closed takes no text, and neither writing to it nor closing it again changes anything;
closing a document leaves it closed also where the stream complains.  Within a scope, up to where
its steps have come, all documents are sound too.  Leaving the scope leaves its document closed, and
raises what the steps in the scope raise unless closing fails. -/
theorem documents_sound (steps : List Use) {index : Nat} {r : Recorded}
    (hr : (documents steps)[index]? = some r) :
    r.IsSound ∧
    (r.document.isClosed = true →
      (∀ text, (Use.write index text).run (documents steps) =
        (.error (.fault (.closedDocument r.document.name)), documents steps)) ∧
      (Use.close index).run (documents steps) = (.ok (), documents steps)) ∧
    (∃ closed, ((Use.close index).run (documents steps)).2[index]? = some closed ∧
      closed.document.isClosed = true) ∧
    ∀ body, (runAll body (documents steps)).2.IsSound ∧
      ∃ used, (runAll body (documents steps)).2[index]? = some used ∧
      (Use.scope index body).run (documents steps) =
        (match used.document.close.1 with
          | .ok _ => (runAll body (documents steps)).1
          | .error e => .error (.fault e),
        (runAll body (documents steps)).2.set index used.closed) ∧
      used.closed.document.isClosed = true := by
  have hsound := isSound_documents steps
  obtain ⟨hindex, -⟩ := List.getElem?_eq_some_iff.1 hr
  generalize documents steps = w at hsound hr hindex ⊢
  refine ⟨hsound r (List.mem_of_getElem? hr), ?_, ?_, ?_⟩
  · intro hclosed
    constructor
    · intro text
      have hwrite : r.write text = (.error (.fault (.closedDocument r.document.name)), r) := by
        rw [Recorded.write, r.document.write_of_isClosed hclosed]
      rw [Use.run, World.on_eq hr, hwrite, World.set_eq_self hr]
    · have hclose : r.close = (.ok (), r) := by
        rw [Recorded.close, r.document.close_of_isClosed hclosed]
        rfl
      rw [Use.run, World.on_eq hr, hclose, World.set_eq_self hr]
  · refine ⟨r.closed, ?_, r.document.isClosed_close⟩
    rw [Use.run, World.on_eq hr]
    exact List.getElem?_set_self hindex
  · intro body
    have hlength := length_le_runAll body w
    obtain ⟨used, hused⟩ : ∃ used, (runAll body w).2[index]? = some used :=
      ⟨_, List.getElem?_eq_getElem (by omega)⟩
    refine ⟨runAll_isSound body hsound, used, hused, ?_, used.document.isClosed_close⟩
    rw [Use.run]
    dsimp only
    rw [World.on_eq hused, Recorded.leave_eq]

/-- A stream that refuses its second text and complains when it is flushed and when it is closed: the
first text stays, the scope raises the complaint in place of the refusal, and what follows finds the
document closed. -/
def stubbornSession : List Use :=
  [.opens "<stream>" (some 2) true true, .scope 0 [.write 0 "a", .write 0 "b", .write 0 "c"],
    .close 0, .write 0 "d"]

theorem documents_sound_stubborn :
    ∃ r, (documents stubbornSession)[0]? = some r ∧ r.IsSound ∧ r.taken = ["a"] ∧
      r.document.isClosed = true ∧
      (Use.write 0 "e").run (documents stubbornSession) =
        (.error (.fault (.closedDocument "<stream>")), documents stubbornSession) ∧
      ((Use.scope 0 [.raise "stop"]).run (documents stubbornSession)).1 =
        .error (.other "stop") := by
  obtain ⟨r, hr, htaken, hname, hclosed⟩ : ∃ r, (documents stubbornSession)[0]? = some r ∧
      r.taken = ["a"] ∧ r.document.name = "<stream>" ∧ r.document.isClosed = true :=
    ⟨_, rfl, rfl, rfl, rfl⟩
  obtain ⟨hsound, hbehind, -, hscope⟩ := documents_sound stubbornSession hr
  obtain ⟨-, used, hused, hrun, -⟩ := hscope [.raise "stop"]
  refine ⟨r, hr, hsound, htaken, hclosed, ?_, ?_⟩
  · rw [(hbehind hclosed).1 "e", hname]
  · obtain rfl : used = r := Option.some.inj (hused.symm.trans hr)
    rw [hrun, used.document.close_of_isClosed hclosed]
    rfl

end DeclBundle.Session
