import Mathlib.Data.List.Chain
import ReversePolish.Proofs.Scanning

/-!
# Where tokens stand in a text

**Reading a text token by token cuts it into blanks and tokens, and leaves nothing out**
(`scan_start_segments`).  `Segmented` describes the pieces from a position on: blanks and a token
that goes on as far as it can, as often as there is one, and blanks at the end.  A cursor finds
these pieces (`Cursor.segmented_scan`), and all else is read off them by induction:

* `Segmented.isChain_lt` — every token ends behind the one before it;
* `Segmented.getLast?_eq` — the end mark is read one position behind the end of the text;
* `Segmented.flatMap_text` — the tokens are the text without its blanks;
* `Segmented.readsFrom` — the same tokens are found by reading anew from the position behind the
  last one, so that only positions have to be kept between two readings.
-/

namespace ReversePolish

/-! ## Reading at a position -/

/-- The token that is read at a position of a text, and the position behind it.  Positions are
counted without a limit here.  `readAt?` counts them in machine words, with the same answers at
every position below the last word. -/
def tokenAt (text : String) (position : Nat) : Token × Nat :=
  ((Cursor.ofPosition text position).next.1, (Cursor.ofPosition text position).next.2.position)

/-- What is answered by reading at a position, and then again and again at the position of the last
answer, until the end mark is read. -/
inductive ReadsFrom (text : String) : Nat → List (Token × Nat) → Prop where
  | last {position behind : Nat} (read : tokenAt text position = (.endMark, behind)) :
      ReadsFrom text position [(.endMark, behind)]
  | token {position behind : Nat} {t : Token} {answers : List (Token × Nat)}
      (read : tokenAt text position = (t, behind)) (more : t ≠ .endMark)
      (rest : ReadsFrom text behind answers) :
      ReadsFrom text position ((t, behind) :: answers)

lemma tokenAt_of_drop {text : String} {position : Nat} {rest : List Char}
    (h : text.toList.drop position = rest) :
    tokenAt text position =
      ((Cursor.next ⟨position, rest⟩).1, (Cursor.next ⟨position, rest⟩).2.position) := by
  rw [tokenAt, Cursor.ofPosition, h]

/-! ## The pieces of a text -/

namespace Cursor

lemma scan_of_blank {position : Nat} {gap : List Char} (blank : AllBlank gap) :
    scan ⟨position, gap⟩ = [(.endMark, position + gap.length + 1)] := by
  rw [scan, next_of_blank blank, if_pos rfl]

lemma scan_of_token {position : Nat} {gap text : List Char} {t : Token} (blank : AllBlank gap)
    (writable : t.IsWritable)
    (longest : t.isOperand = true → ∀ c ∈ text.head?, isNameChar c = false) :
    scan ⟨position, gap ++ t.text ++ text⟩ =
      (t, position + gap.length + t.text.length) ::
        scan ⟨position + gap.length + t.text.length, text⟩ := by
  rw [scan, next_of_token blank writable longest, if_neg (Token.ne_endMark writable)]

/-- **A cursor cuts what it has in front of it into pieces.** -/
theorem segmented_scan (position : Nat) (rest : List Char) :
    Segmented position rest (scan ⟨position, rest⟩) := by
  induction rest using text_induction generalizing position with
  | blank gap blank =>
      rw [scan_of_blank blank]
      exact .last blank
  | token gap t text blank writable longest ih =>
      rw [scan_of_token blank writable longest]
      exact .token blank writable longest (ih _)

end Cursor

namespace Segmented

variable {position : Nat} {rest : List Char} {scanned : List (Token × Nat)}

lemma isChain_lt (h : Segmented position rest scanned) :
    List.IsChain (· < ·) (position :: scanned.map Prod.snd) := by
  induction h with
  | last blank =>
      simp only [List.map_cons, List.map_nil, List.isChain_cons_cons, List.isChain_singleton,
        and_true]
      omega
  | token blank writable longest rest ih =>
      have := Token.length_text_pos writable
      exact .cons_cons (by omega) ih

lemma getLast?_eq (h : Segmented position rest scanned) :
    scanned.getLast? = some (.endMark, position + rest.length + 1) := by
  induction h with
  | last blank => rfl
  | token blank writable longest rest ih =>
      rw [List.getLast?_cons, ih, Option.getD_some, List.length_append, List.length_append]
      simp only [Nat.add_assoc]

lemma flatMap_text (h : Segmented position rest scanned) :
    scanned.flatMap (fun answer => answer.1.text) = rest.filter (fun c => !isBlank c) := by
  induction h with
  | last blank =>
      rw [List.filter_eq_nil_iff.2 (by simpa [AllBlank] using blank)]
      rfl
  | @token position gap text t scanned blank writable longest rest ih =>
      have hgap : gap.filter (fun c => !isBlank c) = [] :=
        List.filter_eq_nil_iff.2 (by simpa [AllBlank] using blank)
      have htext : t.text.filter (fun c => !isBlank c) = t.text :=
        List.filter_eq_self.2 (by simpa using Token.isBlank_of_mem_text writable)
      rw [List.flatMap_cons, ih, List.filter_append, List.filter_append, hgap, htext]
      rfl

lemma readsFrom {text : String} (h : Segmented position rest scanned)
    (hrest : text.toList.drop position = rest) : ReadsFrom text position scanned := by
  induction h with
  | last blank =>
      refine .last ?_
      rw [tokenAt_of_drop hrest, Cursor.next_of_blank blank]
  | @token position gap text' t scanned blank writable longest rest ih =>
      refine .token ?_ (Token.ne_endMark writable) (ih ?_)
      · rw [tokenAt_of_drop hrest, Cursor.next_of_token blank writable longest]
      · rw [Nat.add_assoc, ← List.drop_drop, hrest, ← List.length_append]
        exact List.drop_left

end Segmented

/-- **Reading cuts a text exactly.**  From the start, and then from each position that was
answered, tokens are read until the end mark.  Between two positions there are blanks and the text
of the token, a name goes on as far as it can, the end mark stands one position behind the end, and
the tokens together are the text without its blanks. -/
theorem scan_start_segments (text : String) :
    ReadsFrom text 0 (Cursor.start text).scan ∧
    Segmented 0 text.toList (Cursor.start text).scan ∧
    List.IsChain (· < ·) (0 :: (Cursor.start text).scan.map Prod.snd) ∧
    (Cursor.start text).scan.getLast? = some (.endMark, text.length + 1) ∧
    (Cursor.start text).scan.flatMap (fun answer => answer.1.text) =
      text.toList.filter (fun c => !isBlank c) := by
  have h : Segmented 0 text.toList (Cursor.start text).scan := Cursor.segmented_scan 0 text.toList
  refine ⟨h.readsFrom List.drop_zero, h, h.isChain_lt, ?_, h.flatMap_text⟩
  rw [h.getLast?_eq, Nat.zero_add, String.length_toList]

example : (Cursor.start " a新!b\u3000").scan =
    [(.operand "a新", 3), (.operator .not, 4), (.operand "b", 5), (.endMark, 7)] := by
  decide +kernel

end ReversePolish
