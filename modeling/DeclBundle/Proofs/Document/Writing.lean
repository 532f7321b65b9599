import DeclBundle.Proofs.Document.Closing
set_option autoImplicit false

/-!
# Writing to a document

Several texts written one after the other are one use of the document after another.  A document
that is open, over a stream that refuses nothing more, takes every text and stays so
(`IsReady.writeAll`), and can be closed with the text that it has (`IsReady.close`).
-/

namespace DeclBundle.Document

/-! ## Several texts -/

/-- The second half of several texts is written if the first half has been taken. -/
theorem writeAll_append (d : Document) (xs ys : List String) :
    d.writeAll (xs ++ ys) =
      match d.writeAll xs with
      | (.ok _, d) => d.writeAll ys
      | (.error e, d) => (.error e, d) := by
  induction xs generalizing d with
  | nil => rfl
  | cons x xs ih =>
    simp only [List.cons_append, writeAll]
    rcases d.write x with ⟨result, next⟩
    cases result with
    | error e => rfl
    | ok _ => exact ih next

/-! ## Texts that are taken and texts that are refused -/

variable {d : Document}

/-- The document with some texts more. -/
def after (d : Document) (texts : List String) : Document :=
  { d with stream := { d.stream with
      contents := d.stream.contents ++ String.join texts
      offers := d.stream.offers + texts.length } }

/-- The document with a text more that has been offered, and refused. -/
def spurned (d : Document) : Document :=
  { d with stream := { d.stream with offers := d.stream.offers + 1 } }

@[simp] theorem contents_after (d : Document) (texts : List String) :
    (d.after texts).contents = d.contents ++ String.join texts := rfl

@[simp] theorem offers_after (d : Document) (texts : List String) :
    (d.after texts).stream.offers = d.stream.offers + texts.length := rfl

@[simp] theorem refused_after (d : Document) (texts : List String) :
    (d.after texts).stream.refused = d.stream.refused := rfl

theorem after_nil (d : Document) : d.after [] = d := by
  simp [after]

theorem after_after (d : Document) (xs ys : List String) :
    (d.after xs).after ys = d.after (xs ++ ys) := by
  simp [after, String.append_assoc, Nat.add_assoc]

theorem write_of_taken (hopen : d.isClosed = false)
    (htaken : d.stream.refused ≠ some (d.stream.offers + 1)) (text : String) :
    d.write text = (.ok (), d.after [text]) := by
  have hnot : ¬ d.isClosed = true := by simp [hopen]
  unfold Document.write Stream.write
  have hjoin : String.join [text] = text := by simp
  simp only [if_neg hnot, if_neg htaken]
  rw [after, hjoin]
  rfl

theorem write_of_refused (hopen : d.isClosed = false)
    (hrefused : d.stream.refused = some (d.stream.offers + 1)) (text : String) :
    d.write text = (.error (.files ⟨.noSpace, none⟩), d.spurned) := by
  have hnot : ¬ d.isClosed = true := by simp [hopen]
  unfold Document.write Stream.write
  simp only [if_neg hnot, if_pos hrefused]
  rfl

/-- Texts are taken one behind the other where the stream refuses none of them. -/
theorem writeAll_of_taken {texts : List String} (hopen : d.isClosed = false)
    (htaken : ∀ n, d.stream.refused = some n →
      n ≤ d.stream.offers ∨ d.stream.offers + texts.length < n) :
    d.writeAll texts = (.ok (), d.after texts) := by
  induction texts generalizing d with
  | nil => rw [writeAll, after_nil]
  | cons text texts ih =>
    simp only [List.length_cons] at htaken
    have hwrite : d.write text = (.ok (), d.after [text]) := by
      refine write_of_taken hopen ?_ text
      intro hrefused
      have hn := htaken _ hrefused
      omega
    have hrest : (d.after [text]).writeAll texts = (.ok (), (d.after [text]).after texts) := by
      refine ih hopen ?_
      intro n hrefused
      have hn := htaken n hrefused
      simp only [offers_after, List.length_singleton]
      omega
    rw [writeAll, hwrite]
    exact hrest.trans (by rw [after_after]; rfl)

/-- Where the stream refuses a text, those before it are taken and nothing else is offered. -/
theorem writeAll_of_refused {texts : List String} {n : Nat} (hopen : d.isClosed = false)
    (hrefused : d.stream.refused = some (d.stream.offers + n + 1)) (hn : n < texts.length) :
    d.writeAll texts = (.error (.files ⟨.noSpace, none⟩), (d.after (texts.take n)).spurned) := by
  have hlength : (texts.take n).length = n := List.length_take_of_le (Nat.le_of_lt hn)
  have htaken : d.writeAll (texts.take n) = (.ok (), d.after (texts.take n)) := by
    refine writeAll_of_taken hopen ?_
    intro m hm
    rw [hrefused] at hm
    obtain rfl := Option.some.inj hm
    omega
  have hwrite : (d.after (texts.take n)).write texts[n] =
      (.error (.files ⟨.noSpace, none⟩), (d.after (texts.take n)).spurned) := by
    apply write_of_refused
    · exact hopen
    · rw [refused_after, offers_after, hlength, hrefused]
  have hparts : texts = texts.take n ++ texts[n] :: texts.drop (n + 1) := by
    rw [← List.drop_eq_getElem_cons hn, List.take_append_drop]
  calc d.writeAll texts = d.writeAll (texts.take n ++ texts[n] :: texts.drop (n + 1)) :=
        congrArg d.writeAll hparts
    _ = (.error (.files ⟨.noSpace, none⟩), (d.after (texts.take n)).spurned) := by
        rw [writeAll_append, htaken]
        simp only [writeAll, hwrite]

/-- A text is taken behind the others, or the document keeps what it has. -/
theorem write_cases (d : Document) (text : String) :
    d.write text = (.ok (), d.after [text]) ∨
      ∃ e next, d.write text = (.error e, next) ∧ next.contents = d.contents := by
  cases hclosed : d.isClosed with
  | true => exact .inr ⟨_, d, d.write_of_isClosed hclosed text, rfl⟩
  | false =>
    by_cases hrefused : d.stream.refused = some (d.stream.offers + 1)
    · exact .inr ⟨_, _, d.write_of_refused hclosed hrefused text, rfl⟩
    · exact .inl (d.write_of_taken hclosed hrefused text)

/-- Of several texts some are taken, up to the first one that is refused. -/
theorem exists_contents_writeAll (d : Document) (texts : List String) :
    ∃ taken, taken <+: texts ∧
      (d.writeAll texts).2.contents = d.contents ++ String.join taken := by
  induction texts generalizing d with
  | nil => exact ⟨[], List.prefix_refl _, by simp [writeAll]⟩
  | cons text texts ih =>
    rcases d.write_cases text with hwrite | ⟨e, next, hwrite, hcontents⟩
    · obtain ⟨taken, hprefix, hcontents⟩ := ih (d.after [text])
      refine ⟨text :: taken, (List.cons_prefix_cons).2 ⟨rfl, hprefix⟩, ?_⟩
      rw [writeAll, hwrite]
      dsimp only
      rw [hcontents, contents_after, String.join_cons, String.append_assoc]
      simp
    · refine ⟨[], List.nil_prefix, ?_⟩
      rw [writeAll, hwrite]
      simp [hcontents]

/-! ## Documents that take everything -/

/-- Whether a document takes every text from now on and can be closed. -/
structure IsReady (d : Document) : Prop where
  isOpen : d.isClosed = false
  takes : ∀ n, d.stream.refused = some n → n ≤ d.stream.offers
  isWilling : d.stream.IsWilling

/-- A document that takes everything takes several texts behind what it has. -/
theorem IsReady.writeAll (h : d.IsReady) (texts : List String) :
    ∃ next, d.writeAll texts = (.ok (), next) ∧ next.IsReady ∧
      next.contents = d.contents ++ String.join texts := by
  refine ⟨d.after texts, ?_, ⟨h.isOpen, ?_, h.isWilling.flushes, h.isWilling.closes⟩, rfl⟩
  · exact writeAll_of_taken h.isOpen fun n hrefused => .inl (h.takes n hrefused)
  · intro n hrefused
    exact Nat.le_trans (h.takes n hrefused) (Nat.le_add_right _ _)

/-- Closing a document that can be closed keeps its text. -/
theorem IsReady.close (h : d.IsReady) :
    ∃ next, d.close = (.ok (), next) ∧ next.contents = d.contents :=
  ⟨d.shut, close_of_willing h.isOpen h.isWilling, rfl⟩

end DeclBundle.Document
