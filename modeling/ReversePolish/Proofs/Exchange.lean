import ReversePolish.Proofs.Relabelling
import ReversePolish.Proofs.Scanning

/-!
# Conjunction and disjunction are treated alike

**Exchanging `&` and `|` in a text exchanges them in its conversion, and changes nothing else**
(`conversion_of_exchanged`).  The exchange touches no blank and no name and puts a sign in the place
of a sign, so every token stays where it is (`tokensOf_exchangeSigns`).  The two operators stand on
one level, so that the exchange is a relabelling, and the rest is a matter of tokens alone
(`conversion_relabel`).
-/

namespace ReversePolish

/-! ## The exchanged text -/

lemma exchangeSign_of_none {c : Char} (h : Operator.ofSymbol? c = none) : exchangeSign c = c := by
  have hand : c ≠ '&' := by rintro rfl; cases h
  have hor : c ≠ '|' := by rintro rfl; cases h
  rw [exchangeSign, if_neg hand, if_neg hor]

lemma exchangeSign_of_isBlank {c : Char} (h : isBlank c = true) : exchangeSign c = c := by
  refine exchangeSign_of_none (Option.eq_none_iff_forall_ne_some.2 fun op hop => ?_)
  rw [isBlank_of_ofSymbol? hop] at h
  cases h

lemma exchangeSign_of_isNameChar {c : Char} (h : isNameChar c = true) : exchangeSign c = c :=
  exchangeSign_of_none (isNameChar_iff.1 h).1

/-- A sign stays a sign, so the exchange makes no name longer. -/
lemma isNameChar_exchangeSign {c : Char} (h : isNameChar c = false) :
    isNameChar (exchangeSign c) = false := by
  cases hop : Operator.ofSymbol? c with
  | none => rwa [exchangeSign_of_none hop]
  | some op =>
      have hsign : Operator.ofSymbol? (exchangeSign c) = some op.exchange := by
        rw [ofSymbol?_exchangeSign, hop, Option.map_some]
      exact isNameChar_of_ofSymbol? hsign

lemma map_exchangeSign_blank {gap : List Char} (blank : AllBlank gap) :
    gap.map exchangeSign = gap :=
  (List.map_congr_left fun c hc => exchangeSign_of_isBlank (blank c hc)).trans (List.map_id gap)

namespace Relabelling

/-- The text of an exchanged token is its exchanged text. -/
lemma text_exchange_token {t : Token} (writable : t.IsWritable) :
    (exchange.token t).text = t.text.map exchangeSign := by
  cases t with
  | operator op => cases op <;> rfl
  | operand name =>
      have hname : name.toList.map exchangeSign = name.toList.map id :=
        List.map_congr_left fun c hc => exchangeSign_of_isNameChar (writable.2 c hc)
      exact ((List.map_id name.toList).symm.trans hname.symm)

lemma isWritable_exchange_token {t : Token} (writable : t.IsWritable) :
    (exchange.token t).IsWritable := by
  cases t with
  | operand name => exact writable
  | operator op =>
      intro hend
      have hop : op = Operator.endOfInput := by
        rw [← op.exchange_exchange]
        exact congrArg Operator.exchange hend
      exact writable hop

end Relabelling

/-! ## Its tokens -/

/-- **The tokens of an exchanged text are the exchanged tokens**, at the same positions. -/
theorem Cursor.tokens_map_exchangeSign (rest : List Char) :
    ∀ position : Nat, tokens ⟨position, rest.map exchangeSign⟩ =
      (tokens ⟨position, rest⟩).map Relabelling.exchange.token := by
  induction rest using text_induction with
  | blank gap blank =>
      intro position
      rw [map_exchangeSign_blank blank, tokens_of_blank blank]
      rfl
  | token gap t rest blank writable longest ih =>
      intro position
      have htext := Relabelling.text_exchange_token writable
      have hlongest : (Relabelling.exchange.token t).isOperand = true →
          ∀ c ∈ (rest.map exchangeSign).head?, isNameChar c = false := by
        intro ht c hc
        rw [List.head?_map, Option.mem_def, Option.map_eq_some_iff] at hc
        obtain ⟨d, hd, rfl⟩ := hc
        exact isNameChar_exchangeSign (longest (by cases t <;> exact ht) d hd)
      have hlength : (Relabelling.exchange.token t).text.length = t.text.length := by
        rw [htext, List.length_map]
      rw [List.map_append, List.map_append, map_exchangeSign_blank blank, ← htext,
        tokens_of_token blank (Relabelling.isWritable_exchange_token writable) hlongest,
        tokens_of_token blank writable longest, ih, hlength]
      rfl

theorem tokensOf_exchangeSigns (text : String) :
    tokensOf (exchangeSigns text) = (tokensOf text).map Relabelling.exchange.token := by
  have htokens := Cursor.tokens_map_exchangeSign text.toList 0
  rwa [← String.toList_ofList (l := text.toList.map exchangeSign)] at htokens

/-! ## Its conversion -/

lemma Postfix.exchange_exchange (p : Postfix) : p.exchange.exchange = p := by
  simp [Postfix.exchange, Function.comp_def]

/-- The answer is the exchanged one, but for the echoed expression. -/
lemma convertWith_exchangeSigns (accepts : Validator) (text : String) :
    convertWith accepts (exchangeSigns text) =
      ((convertWith accepts text).map Postfix.exchange).mapError
        (·.withExpression (exchangeSigns text)) := by
  rw [convertWith_relabel (v := accepts) (fun _ => rfl) (tokensOf_exchangeSigns text)]
  rcases convertWith accepts text with (info | operand) | p <;> rfl

/-- **Conjunction and disjunction are treated alike.**  A text is converted to a sequence exactly
if the exchanged text is converted to the exchanged sequence; a text that fails does so in both
forms alike, but for the echoed expression; and the same names are asked about in the same
order. -/
theorem conversion_of_exchanged (accepts : Validator) (text : String) :
    (∀ p, convertWith accepts text = .ok p ↔
      convertWith accepts (exchangeSigns text) = .ok p.exchange) ∧
    convertWith accepts (exchangeSigns text) =
      ((convertWith accepts text).map Postfix.exchange).mapError
        (·.withExpression (exchangeSigns text)) ∧
    (conversion accepts (exchangeSigns text)).asked = (conversion accepts text).asked := by
  have hanswer := convertWith_exchangeSigns accepts text
  refine ⟨fun p => ?_, hanswer, ?_⟩
  · rw [hanswer]
    cases convertWith accepts text with
    | error e => exact ⟨nofun, nofun⟩
    | ok q =>
        show Except.ok q = .ok p ↔ Except.ok q.exchange = .ok p.exchange
        rw [Except.ok.injEq, Except.ok.injEq]
        refine ⟨congrArg Postfix.exchange, fun h => ?_⟩
        rw [← q.exchange_exchange, h, p.exchange_exchange]
  · rw [conversion_relabel (v := accepts) (fun _ => rfl) (tokensOf_exchangeSigns text),
      Relabelling.exchange.asked_run]
    exact List.map_id _

example : exchangeSigns "a&(b|!c)" = "a|(b&!c)" ∧
    convert "a&(b|!c)" =
      .ok { tokens := [.operand "a", .operand "b", .operand "c", .not, .or, .and] } ∧
    convert "a|(b&!c)" =
      .ok { tokens := [.operand "a", .operand "b", .operand "c", .not, .and, .or] } := by
  decide +kernel

end ReversePolish
