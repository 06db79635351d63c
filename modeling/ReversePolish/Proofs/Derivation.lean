import ReversePolish.Expr.Grammar
import ReversePolish.Proofs.FirstFault
import ReversePolish.Proofs.Scanning
import ReversePolish.Token.Placement

/-!
# Rules of the grammar

**A rule is converted to the postorder of its tree** (`convert_of_derives`), however its tokens are
spread over the text.  Three facts about derivations make this up.

* `Derives.emits` — above any stack, reading a chain or a factor emits the postorder of its tree
  and leaves the stack as it was.  A factor may stand on a waiting operator, which has to stay; a
  chain stands on an opening parenthesis or on the end mark, because its binary operators would
  make another one be emitted.
* `Derives.wellPlaced` — every token may follow the one before it, so no two operands are
  neighbours, and a spelling without any blanks can be read back (`layoutAfter_of_spelled`).
* `Derives.isWritable` — every token can be written.
-/

namespace ReversePolish

namespace Grammar

/-- The operators on which a chain or a factor may stand while it is read. -/
def Level.StandsOn : Level → Operator → Prop
  | .chain, top => top.IsBase
  | .factor, top => top ≠ .closeParen

lemma Level.StandsOn.factor {top : Operator} (h : Level.chain.StandsOn top) :
    Level.factor.StandsOn top := by
  rcases h with rfl | rfl <;> exact Operator.noConfusion

/-- A chain, a binary operator and a factor: the operator waits until the factor has been
emitted. -/
lemma emits_binary {accepts : Validator} {op top : Operator} {t : Postfix.Token}
    {below : List Operator} {ts us vs : List Token} {outl outr : List Postfix.Token}
    (hop : op = .and ∨ op = .or) (emitted : Postfix.Token.ofOperator? op = some t)
    (htop : Level.chain.StandsOn top) (hvs : Flushing vs)
    (left : ∀ us, Flushing us →
      Emits accepts (top :: below) (ts ++ us) outl (top :: below) us)
    (right : Emits accepts (op :: top :: below) (us ++ vs) outr (op :: top :: below) vs) :
    Emits accepts (top :: below) ((ts ++ .operator op :: us) ++ vs) (outl ++ outr ++ [t])
      (top :: below) vs := by
  have hshift : Emits accepts (top :: below) (.operator op :: (us ++ vs)) []
      (op :: top :: below) (us ++ vs) := .shift (htop.precedence_binary hop)
  rw [List.append_assoc, List.append_assoc]
  exact (left _ (flushing_binary hop _)).trans
    (hshift.trans (right.trans (.flush emitted hvs)))

/-- **Reading what was derived emits the postorder of its tree** and leaves the stack as it was. -/
theorem Derives.emits {accepts : Validator} {level : Level} {ts : List Token} {e : Expr}
    (h : Derives level ts e) (accepted : ∀ n ∈ e.names, accepts n = true) :
    ∀ (top : Operator) (below : List Operator) (us : List Token), level.StandsOn top →
      Flushing us → Emits accepts (top :: below) (ts ++ us) e.postorder (top :: below) us := by
  induction h with
  | and left right ihl ihr =>
      intro top below vs htop hvs
      refine emits_binary (Or.inl rfl) rfl htop hvs (fun us hus => ?_) ?_
      · exact ihl (fun n hn => accepted n (List.mem_append_left _ hn)) top below us htop hus
      · exact ihr (fun n hn => accepted n (List.mem_append_right _ hn)) .and _ vs
          Operator.noConfusion hvs
  | or left right ihl ihr =>
      intro top below vs htop hvs
      refine emits_binary (Or.inr rfl) rfl htop hvs (fun us hus => ?_) ?_
      · exact ihl (fun n hn => accepted n (List.mem_append_left _ hn)) top below us htop hus
      · exact ihr (fun n hn => accepted n (List.mem_append_right _ hn)) .or _ vs
          Operator.noConfusion hvs
  | single factor ih =>
      intro top below us htop hus
      exact ih accepted top below us htop.factor hus
  | not factor ih =>
      intro top below us htop hus
      have hshift : top.precedence .not = .shift := by
        cases top <;> first | rfl | exact absurd rfl htop
      have he := ih accepted .not (top :: below) us Operator.noConfusion hus
      exact (Emits.shift hshift).trans (he.trans (.flush rfl hus))
  | group inner ih =>
      intro top below us htop hus
      exact .parenthesized (fun _ => .shift (Operator.precedence_openParen htop))
        (ih accepted .openParen (top :: below) _ (Or.inl rfl) (flushing_closeParen us))
  | @name n isName =>
      intro top below us htop hus
      exact .operand (accepted n (List.mem_singleton_self n))

/-! ## Rules can be written without blanks -/

/-- Behind a token that wants an operand, what was derived is well placed, and so is what may
follow an operand behind it. -/
theorem Derives.wellPlaced {level : Level} {ts : List Token} {e : Expr}
    (h : Derives level ts e) :
    ∀ (before : Token) (us : List Token), before.wantsOperand = true →
      (∀ last : Token, last.wantsOperand = false → WellPlacedAfter last us) →
      WellPlacedAfter before (ts ++ us) := by
  induction h with
  | and left right ihl ihr | or left right ihl ihr =>
      intro before vs hbefore hvs
      rw [List.append_assoc]
      refine ihl before _ hbefore fun last hlast => ⟨?_, ihr _ vs rfl hvs⟩
      exact hlast.symm
  | single factor ih => exact ih
  | not factor ih =>
      intro before us hbefore hus
      exact ⟨hbefore.symm, ih _ us rfl hus⟩
  | @group ts e inner ih =>
      intro before us hbefore hus
      refine ⟨hbefore.symm, ?_⟩
      show WellPlacedAfter (.operator .openParen) ((ts ++ [.operator .closeParen]) ++ us)
      rw [List.append_assoc]
      refine ih _ _ rfl fun last hlast => ⟨hlast.symm, hus _ rfl⟩
  | name isName =>
      intro before us hbefore hus
      exact ⟨hbefore.symm, hus _ rfl⟩

/-- All tokens of what was derived can be written. -/
theorem Derives.isWritable {level : Level} {ts : List Token} {e : Expr}
    (h : Derives level ts e) : ∀ t ∈ ts, t.IsWritable := by
  induction h with
  | and left right ihl ihr | or left right ihl ihr =>
      intro t ht
      rcases List.mem_append.1 ht with ht | ht
      · exact ihl t ht
      · rcases List.mem_cons.1 ht with rfl | ht
        · exact Operator.noConfusion
        · exact ihr t ht
  | single factor ih => exact ih
  | not factor ih =>
      intro t ht
      rcases List.mem_cons.1 ht with rfl | ht
      · exact Operator.noConfusion
      · exact ih t ht
  | group inner ih =>
      intro t ht
      rcases List.mem_cons.1 ht with rfl | ht
      · exact Operator.noConfusion
      · rcases List.mem_append.1 ht with ht | ht
        · exact ih t ht
        · obtain rfl := List.mem_singleton.1 ht
          exact Operator.noConfusion
  | name isName =>
      intro t ht
      obtain rfl := List.mem_singleton.1 ht
      exact isName

end Grammar

/-- Well-placed tokens need no blanks at all: no two neighbours are operands. -/
theorem layoutAfter_of_spelled {ts : List Token} {text : List Char} (h : Spelled ts text)
    (writable : ∀ t ∈ ts, t.IsWritable) :
    ∀ before : Token, WellPlacedAfter before ts → LayoutAfter before.isOperand ts text := by
  induction h with
  | done blank => exact fun _ _ => .done blank
  | @token gap text t ts blank rest ih =>
      rintro before ⟨hfollow, hplaced⟩
      have hrest := ih (fun u hu => writable u (List.mem_cons_of_mem _ hu)) t hplaced
      refine .token blank (writable t List.mem_cons_self) (fun hbefore ht => ?_) hrest
      -- behind an operand no operand is well placed
      cases before with
      | operator op => cases hbefore
      | operand name =>
          cases t with
          | operator op => cases ht
          | operand name' => cases hfollow

/-- Whatever blanks are missing in it, a spelling of what was derived is read back. -/
theorem tokensOf_of_spelled {level : Grammar.Level} {ts : List Token} {e : Expr} {text : String}
    (h : Grammar.Derives level ts e) (spelled : Spelled ts text.toList) : tokensOf text = ts := by
  have hplaced : WellPlaced ts := by
    have := h.wellPlaced .endMark [] rfl fun last hlast => hlast.symm
    rwa [List.append_nil] at this
  exact tokensOf_of_layout (layoutAfter_of_spelled spelled h.isWritable .endMark hplaced)

/-- The tokens of a chain are converted to the postorder of its tree, if its operands are
accepted. -/
theorem convertWith_of_tokensOf {accepts : Validator} {ts : List Token} {e : Expr} {text : String}
    (h : Grammar.Derives .chain ts e) (tokens : tokensOf text = ts)
    (accepted : ∀ n ∈ e.names, accepts n = true) :
    convertWith accepts text = .ok { tokens := e.postorder } := by
  have hemits := h.emits accepted .endOfInput [] _ (Or.inr rfl) flushing_endMark
  rw [← tokens] at hemits
  obtain ⟨hfault, hout⟩ := hemits.conversion
  have hbalanced : Postfix.isBalanced e.postorder = true :=
    Postfix.isBalanced_iff.2 (e.depthAfter_postorder 0)
  rw [convertWith_of_fault_none hfault, hout, if_pos hbalanced]

lemma convert_of_tokensOf {ts : List Token} {e : Expr} {text : String}
    (h : Grammar.Derives .chain ts e) (tokens : tokensOf text = ts) :
    convert text = .ok { tokens := e.postorder } :=
  convertWith_of_tokensOf h tokens fun n _ => acceptAll_apply n

/-- **A rule of the grammar is converted to the postorder of its tree**, however its tokens are
spread over the text, and evaluating the result leaves the value of the tree alone on the stack. -/
theorem convert_of_derives {ts : List Token} {e : Expr} {text : String}
    (h : Grammar.Derives .chain ts e) (spelled : Spelled ts text.toList) :
    convert text = .ok { tokens := e.postorder } ∧
      ∀ env, Postfix.valuesAfter env [] e.postorder = some [e.value env] :=
  ⟨convert_of_tokensOf h (tokensOf_of_spelled h spelled),
    fun env => e.valuesAfter_postorder env []⟩

/-- A negated group in uneven blanks: its answer, and the value that this leaves. -/
theorem convert_negated_group :
    Grammar.Derives .chain
        [.operator .not, .operator .openParen, .operand "a", .operator .or, .operand "b",
          .operator .closeParen, .operator .and, .operand "c"]
        (.and (.not (.or (.name "a") (.name "b"))) (.name "c")) ∧
      Spelled
        [.operator .not, .operator .openParen, .operand "a", .operator .or, .operand "b",
          .operator .closeParen, .operator .and, .operand "c"]
        " !( a|b)\t&c".toList ∧
      convert " !( a|b)\t&c" =
        .ok { tokens := [.operand "a", .operand "b", .or, .not, .operand "c", .and] } ∧
      ∀ env, Postfix.valuesAfter env []
          [.operand "a", .operand "b", .or, .not, .operand "c", .and] =
        some [!(env "a" || env "b") && env "c"] := by
  have ha : Grammar.Derives .factor [.operand "a"] (.name "a") := .name (by decide)
  have hb : Grammar.Derives .factor [.operand "b"] (.name "b") := .name (by decide)
  have hc : Grammar.Derives .factor [.operand "c"] (.name "c") := .name (by decide)
  have hor := Grammar.Derives.or (.single ha) hb
  have hand := Grammar.Derives.and (.single (.not (.group hor))) hc
  have hspelled : Spelled _ " !( a|b)\t&c".toList :=
    @Spelled.token [' '] _ (.operator .not) _ (by decide) <|
    @Spelled.token [] _ (.operator .openParen) _ .nil <|
    @Spelled.token [' '] _ (.operand "a") _ (by decide) <|
    @Spelled.token [] _ (.operator .or) _ .nil <|
    @Spelled.token [] _ (.operand "b") _ .nil <|
    @Spelled.token [] _ (.operator .closeParen) _ .nil <|
    @Spelled.token ['\t'] _ (.operator .and) _ (by decide) <|
    @Spelled.token [] _ (.operand "c") _ .nil <|
    @Spelled.done [] .nil
  exact ⟨hand, hspelled, convert_of_derives hand hspelled⟩

end ReversePolish
