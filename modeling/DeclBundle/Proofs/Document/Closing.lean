import DeclBundle.Document
set_option autoImplicit false

/-!
# Closing a document

Writing to a document, whether or not its stream takes the text, leaves open what is open and closes
nothing (`writeAll_closing`).  Closing an open document closes its stream once, also where the
stream complains when it is flushed or closed (`close_closed`).  A document that is closed takes no
text and is not closed again.
-/

namespace DeclBundle

/-- Whether a stream can be flushed and closed without a complaint. -/
structure Stream.IsWilling (s : Stream) : Prop where
  flushes : s.failsToFlush = false
  closes : s.failsToClose = true → s.closes ≠ 0

namespace Document

variable {d next last : Document}

/-- Whether two documents are closed or open alike, and their streams have been closed as often. -/
structure SameClosing (d next : Document) : Prop where
  isClosed : next.isClosed = d.isClosed
  stream_isClosed : next.stream.isClosed = d.stream.isClosed
  closes : next.stream.closes = d.stream.closes

theorem SameClosing.refl (d : Document) : d.SameClosing d :=
  ⟨rfl, rfl, rfl⟩

theorem SameClosing.trans (h : d.SameClosing next) (h' : next.SameClosing last) :
    d.SameClosing last :=
  ⟨h'.isClosed.trans h.isClosed, h'.stream_isClosed.trans h.stream_isClosed,
    h'.closes.trans h.closes⟩

theorem write_closing (d : Document) (text : String) : d.SameClosing (d.write text).2 := by
  unfold Document.write Stream.write
  dsimp only
  split
  · exact .refl d
  · split <;> exact ⟨rfl, rfl, rfl⟩

/-- Writing several texts closes nothing, also where one is refused. -/
theorem writeAll_closing (d : Document) (texts : List String) :
    d.SameClosing (d.writeAll texts).2 := by
  induction texts generalizing d with
  | nil => exact .refl d
  | cons text texts ih =>
    have hwrite := d.write_closing text
    unfold Document.writeAll
    generalize d.write text = written at hwrite ⊢
    obtain ⟨result, next⟩ := written
    cases result with
    | error e => exact hwrite
    | ok _ => exact hwrite.trans (ih next)

/-- Whether a document has been closed, and its stream once more than that of another document. -/
structure ClosedOnceMore (d next : Document) : Prop where
  isClosed : next.isClosed = true
  stream_isClosed : next.stream.isClosed = true
  closes : next.stream.closes = d.stream.closes + 1

/-- The document with its stream closed once more. -/
def shut (d : Document) : Document :=
  { d with
    stream := { d.stream with closes := d.stream.closes + 1, isClosed := true }
    isClosed := true }

/-- Whether or not the stream of an open document complains, closing closes it. -/
theorem close_of_isOpen (h : d.isClosed = false) : d.close.2 = d.shut := by
  have hnot : ¬ d.isClosed = true := by simp [h]
  rw [close, if_neg hnot, Stream.close]
  dsimp only
  split <;> rfl

/-- A stream that does not complain lets its document be closed. -/
theorem close_of_willing (h : d.isClosed = false) (hwilling : d.stream.IsWilling) :
    d.close = (.ok (), d.shut) := by
  refine Prod.ext ?_ (close_of_isOpen h)
  have hnot : ¬ d.isClosed = true := by simp [h]
  have hflush : d.stream.flush = .ok () := by simp [Stream.flush, hwilling.flushes]
  have hcloses : ¬ (d.stream.failsToClose && decide (d.stream.closes = 0)) = true := by
    simpa using hwilling.closes
  rw [close, if_neg hnot, Stream.close, hflush]
  dsimp only
  rw [if_neg hcloses]
  rfl

/-- Closing an open document closes its stream once, whether or not the stream complains. -/
theorem close_closed (h : d.isClosed = false) : d.ClosedOnceMore d.close.2 := by
  rw [close_of_isOpen h]
  exact ⟨rfl, rfl, rfl⟩

/-! ## Closed documents -/

theorem write_of_isClosed (h : d.isClosed = true) (text : String) :
    d.write text = (.error (.closedDocument d.name), d) := by
  rw [write, if_pos h]

theorem writeAll_of_isClosed (h : d.isClosed = true) (texts : List String) :
    d.writeAll texts =
      (if texts = [] then .ok () else .error (.closedDocument d.name), d) := by
  cases texts with
  | nil => rfl
  | cons text texts =>
    rw [writeAll, write_of_isClosed h, if_neg (List.cons_ne_nil text texts)]

theorem close_of_isClosed (h : d.isClosed = true) : d.close = (.ok (), d) := by
  rw [close, if_pos h]

/-- Whatever closing gives, it leaves the document closed. -/
theorem isClosed_close (d : Document) : d.close.2.isClosed = true := by
  cases h : d.isClosed with
  | true => rwa [close_of_isClosed h]
  | false => exact (close_closed h).isClosed

theorem contents_close (d : Document) : d.close.2.contents = d.contents := by
  cases h : d.isClosed with
  | true => rw [close_of_isClosed h]
  | false =>
    rw [close_of_isOpen h]
    rfl

/-- A use of a document gives what it gives unless closing fails behind it. -/
theorem during_eq {ε α : Type} (asError : Fault → ε) (use : Document → Except ε α × Document)
    (d : Document) :
    d.during asError use =
      (match (use d).2.close.1 with
        | .ok _ => (use d).1
        | .error e => .error (asError e), (use d).2.close.2) := by
  unfold during
  rcases use d with ⟨result, used⟩
  dsimp only
  rcases used.close with ⟨_ | _, closed⟩ <;> rfl

end Document

end DeclBundle
