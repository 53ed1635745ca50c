import Ingress.Proofs.Validation.Grammar
import Ingress.Proofs.Validation.Verdict
import Mathlib

/-!
# The checks find exactly what breaks the grammar

Several checks stop early: at an event that is too large, at what lies too deep, under a key that is
too long, behind the last card or shop item that may be there. Each of them has reported an error by
then, so no error among the findings means that the whole event keeps the grammar.

* `Clear` : findings without an error;
* `Structure.clear_findings` : the walk over the data against `Grammar.Bounded`;
* `Kind.clear_findings` : the rule of a kind against `Grammar.Rule`;
* `clear_findings`, `validate_exact` : all findings of a value against `Grammar.IsEvent`.
-/

namespace Ingress

open Json Grammar

/-! ## Findings without an error -/

/-- No finding is an error. -/
def Clear (fs : List Finding) : Prop := ∀ f ∈ fs, f.rejects = false

theorem clear_nil : Clear [] := fun _ h => by cases h

theorem clear_iff {fs : List Finding} : Clear fs ↔ ¬ fs.any Finding.rejects = true := by
  rw [List.any_eq_true, not_exists]
  exact forall_congr' fun f => by rw [not_and, Bool.not_eq_true]

theorem clear_append {fs gs : List Finding} : Clear (fs ++ gs) ↔ Clear fs ∧ Clear gs := by
  unfold Clear
  rw [List.forall_mem_append]

theorem clear_flatMap {α : Type} {f : α → List Finding} {xs : List α} :
    Clear (xs.flatMap f) ↔ ∀ x ∈ xs, Clear (f x) := by
  unfold Clear
  constructor
  · exact fun h x hx g hg => h g (List.mem_flatMap.2 ⟨x, hx, hg⟩)
  · intro h g hg
    obtain ⟨x, hx, hg⟩ := List.mem_flatMap.1 hg
    exact h x hx g hg

theorem not_clear_singleton {f : Finding} (hf : f.rejects = true) : ¬ Clear [f] := by
  intro h
  rw [h f List.mem_cons_self] at hf
  cases hf

/-- An error unless a condition holds. -/
theorem clear_unless {p : Prop} [Decidable p] {f : Finding} (hf : f.rejects = true) :
    Clear (if p then [] else [f]) ↔ p := by
  split
  next hp => exact iff_of_true clear_nil hp
  next hp => exact iff_of_false (not_clear_singleton hf) hp

/-- An error if a condition holds. -/
theorem clear_if {p : Prop} [Decidable p] {f : Finding} (hf : f.rejects = true) :
    Clear (if p then [f] else []) ↔ ¬ p := by
  split
  next hp => exact iff_of_false (not_clear_singleton hf) (not_not.2 hp)
  next hp => exact iff_of_true clear_nil hp

/-! ## Fields -/

variable {fields : Fields} {key : String} {P : Value → Prop}

theorem mayHave_none (h : lookup key fields = none) : MayHave fields key P := by
  intro v hv
  rw [h] at hv
  cases hv

theorem mayHave_some {v : Value} (h : lookup key fields = some v) :
    MayHave fields key P ↔ P v := by
  unfold MayHave
  simp [h]

theorem not_has_none (h : lookup key fields = none) : ¬ Has fields key P := by
  rintro ⟨v, hv, -⟩
  rw [h] at hv
  cases hv

theorem has_some {v : Value} (h : lookup key fields = some v) : Has fields key P ↔ P v := by
  unfold Has
  simp [h]

/-- A field that has to be there where `required` is true. -/
def HasIf (required : Bool) (fields : Fields) (key : String) (P : Value → Prop) : Prop :=
  match required with
  | true => Has fields key P
  | false => MayHave fields key P

/-- The check of a field: an error where it is missing and required, else the check of its value. -/
theorem clear_field {required : Bool} {e : Finding} (he : e.rejects = true)
    {check : Value → List Finding} (hcheck : ∀ v, Clear (check v) ↔ P v) :
    Clear (match lookup key fields with
      | none => if required then [e] else []
      | some v => check v) ↔ HasIf required fields key P := by
  unfold HasIf
  cases h : lookup key fields with
  | none =>
    cases required with
    | true => exact iff_of_false (not_clear_singleton he) (not_has_none h)
    | false => exact iff_of_true clear_nil (mayHave_none h)
  | some v =>
    cases required with
    | true => rw [has_some h]; exact hcheck v
    | false => rw [mayHave_some h]; exact hcheck v

/-! ## Rules of the kinds -/

namespace Rules

variable {path name : String} {required : Bool}

theorem clear_number {low high : Double} {Q : Number → Prop}
    (hQ : ∀ n : Number, (low.le n.toDouble && n.toDouble.le high) = true ↔ Q n) :
    Clear (number fields path name low high required) ↔
      HasIf required fields name (fun v => ∃ n, v = .number n ∧ Q n) := by
  unfold number
  refine clear_field rfl fun v => ?_
  cases v with
  | number n =>
    show Clear (if _ then _ else _) ↔ _
    split
    next hin => exact iff_of_true clear_nil ⟨n, rfl, (hQ n).1 hin⟩
    next hout =>
      refine iff_of_false ?_ ?_
      · split
        · exact not_clear_singleton rfl
        · exact not_clear_singleton rfl
      · rintro ⟨m, hm, hQm⟩
        cases hm
        exact hout ((hQ n).2 hQm)
  | _ => exact iff_of_false (not_clear_singleton rfl) fun ⟨n, hn, _⟩ => by cases hn

/-- A number from zero up to a whole bound. -/
theorem clear_number_upTo {bound : Nat} (h : Number.IsWholeBound bound) :
    Clear (number fields path name .zero (.ofNat bound) required) ↔
      HasIf required fields name (IsNumber bound) := by
  refine clear_number fun n => ?_
  rw [Bool.and_eq_true, n.zero_le_iff, Number.le_ofNat_iff h]

/-- Any number that is not negative. -/
theorem clear_score : Clear (number fields path name .zero .largest required) ↔
    HasIf required fields name IsScore := by
  refine clear_number fun n => ?_
  rw [Bool.and_eq_true, n.zero_le_iff, and_iff_left n.le_largest]

theorem clear_integer {low high : ℤ} (hhigh : high < signedBound) :
    Clear (integer fields path name low high required) ↔
      HasIf required fields name (IsInteger low high) := by
  unfold integer
  refine clear_field rfl fun v => ?_
  have hwrong : (∀ n fits, v = .number (.whole n fits) → ¬ (low ≤ n ∧ n ≤ high)) →
      ¬ IsInteger low high v := by
    rintro h ⟨n, fits, hv, hn⟩
    exact h n fits hv hn
  cases v with
  | number n =>
    cases n with
    | whole n fits =>
      unfold int64? Number.int64?
      dsimp only
      -- a number that is no signed word is refused as no integer, and it is above `high`
      split
      next hlarge =>
        refine iff_of_false (not_clear_singleton rfl) (hwrong fun m _ hm hin => ?_)
        cases hm
        rw [if_pos (by omega)] at hlarge
        cases hlarge
      next m hsmall =>
        split at hsmall
        next =>
          cases hsmall
          rw [clear_unless rfl]
          refine ⟨fun hin => ⟨n, fits, rfl, hin⟩, ?_⟩
          rintro ⟨m, _, hm, hin⟩
          cases hm
          exact hin
        next => cases hsmall
    | real d finite =>
      exact iff_of_false (not_clear_singleton rfl) (hwrong fun _ _ hv => by cases hv)
  | _ => exact iff_of_false (not_clear_singleton rfl) (hwrong fun _ _ hv => by cases hv)

theorem isSome_parse? (name : String) : (HandType.parse? name).isSome = true ↔ IsHandName name := by
  unfold HandType.parse? IsHandName
  rw [Option.isSome_map, List.find?_isSome, List.mem_map]
  simp only [beq_iff_eq]

theorem clear_handType : Clear (handType fields) ↔ Has fields "hand_type" IsHand := by
  unfold handType
  cases h : lookup "hand_type" fields with
  | none => exact iff_of_false (not_clear_singleton rfl) (not_has_none h)
  | some v =>
    rw [has_some h]
    cases v with
    | string name =>
      show Clear (if _ then _ else _) ↔ _
      rw [clear_unless rfl, isSome_parse?]
      refine ⟨fun hname => ⟨name, rfl, hname⟩, fun ⟨other, hother, hname⟩ => ?_⟩
      cases hother
      exact hname
    | _ => exact iff_of_false (not_clear_singleton rfl) fun ⟨_, hv, _⟩ => by cases hv

theorem ofInitial?_eq (c : Char) (s : Suit) : Suit.ofInitial? c = some s ↔ c = initial s := by
  unfold Suit.ofInitial?
  constructor
  · intro h
    repeat' split at h
    all_goals first
      | (cases h; assumption)
      | cases h
  · rintro rfl
    cases s <;> decide

theorem isSome_parse?_suit (name : String) :
    (Suit.parse? name).isSome = true ↔ ∃ suit : Suit, suit.name = name := by
  have hall : ∀ suit : Suit, suit ∈ [Suit.hearts, .diamonds, .clubs, .spades, .wild] := by
    intro suit
    cases suit <;> decide
  unfold Suit.parse?
  rw [List.find?_isSome]
  simp [hall]

theorem isCardCode_iff (code : String) :
    isCardCode code = true ↔ ∃ rank ∈ rankNames, ∃ suit, code = rank.push (initial suit) := by
  unfold isCardCode
  split
  next hempty =>
    refine iff_of_false Bool.false_ne_true ?_
    rintro ⟨rank, -, suit, rfl⟩
    simp at hempty
  next c rank hcode =>
    have htext : code = (String.ofList rank.reverse).push c := by
      rw [← String.toList_inj, String.toList_push, String.toList_ofList, ← List.reverse_cons,
        ← hcode, List.reverse_reverse]
    rw [Bool.and_eq_true, isRank, List.contains_iff_mem, Option.isSome_iff_exists]
    constructor
    · rintro ⟨⟨suit, hsuit⟩, hrank⟩
      exact ⟨_, hrank, suit, htext.trans (by rw [(ofInitial?_eq c suit).1 hsuit])⟩
    · rintro ⟨rank', hrank, suit, hcode'⟩
      rw [htext] at hcode'
      obtain ⟨hrest, rfl⟩ := String.push_inj.1 hcode'
      exact ⟨⟨suit, (ofInitial?_eq _ suit).2 rfl⟩, hrest ▸ hrank⟩

theorem rank_iff (fields : Fields) : ((lookup "rank" fields).bind text?).any isRank = true ↔
    ∃ rank, lookup "rank" fields = some (.string rank) ∧ rank ∈ rankNames := by
  unfold isRank
  cases lookup "rank" fields with
  | none => simp
  | some v => cases v <;> simp [text?]

theorem suit_iff (fields : Fields) :
    (((lookup "suit" fields).bind text?).bind Suit.parse?).isSome = true ↔
      ∃ suit : Suit, lookup "suit" fields = some (.string suit.name) := by
  cases lookup "suit" fields with
  | none => simp
  | some v =>
    cases v with
    | string name =>
      show (Suit.parse? name).isSome = true ↔ _
      rw [isSome_parse?_suit]
      simp [eq_comm]
    | _ => simp [text?]

theorem clear_card (v : Value) : Clear (card path v) ↔ IsCard v := by
  unfold card
  cases v with
  | object fields =>
    dsimp only
    rw [clear_append, clear_unless rfl, clear_unless rfl, rank_iff, suit_iff]
    constructor
    · rintro ⟨⟨rank, hrank, known⟩, suit, hsuit⟩
      exact .parts suit hrank known hsuit
    · rintro (⟨suit, hrank, known, hsuit⟩ | _)
      exact ⟨⟨_, hrank, known⟩, suit, hsuit⟩
  | string code =>
    dsimp only
    rw [clear_unless rfl, isCardCode_iff]
    constructor
    · rintro ⟨rank, known, suit, rfl⟩
      exact .code suit known
    · rintro (_ | ⟨suit, known⟩)
      exact ⟨_, known, suit, rfl⟩
  | _ => exact iff_of_false (not_clear_singleton rfl) fun h => by cases h

theorem clear_cardRow (items : List Value) (index : Nat) :
    Clear (cardRow index items) ↔ ∀ v ∈ items, IsCard v := by
  induction items generalizing index with
  | nil => exact iff_of_true clear_nil (fun _ h => by cases h)
  | cons v rest ih => rw [cardRow, clear_append, clear_card, ih, List.forall_mem_cons]

/-- Cards beyond the size of a hand are not looked at: that there are any is an error already. -/
theorem clear_cards (l : Limits) :
    Clear (cards l fields) ↔ Has fields "cards_played" (IsCards l.maxHandSize) := by
  unfold cards
  cases h : lookup "cards_played" fields with
  | none => exact iff_of_false (not_clear_singleton rfl) (not_has_none h)
  | some v =>
    rw [has_some h]
    cases v with
    | array items =>
      dsimp only
      have hempty : items.isEmpty = true ↔ items.length = 0 := by simp
      rw [clear_append, clear_cardRow]
      constructor
      · rintro ⟨hcount, hcards⟩
        split at hcount
        next => exact absurd hcount (not_clear_singleton rfl)
        next hsome =>
          rw [clear_if rfl] at hcount
          rw [hempty] at hsome
          rw [List.take_of_length_le (by omega)] at hcards
          exact ⟨items, rfl, by omega, by omega, hcards⟩
      · rintro ⟨items', hitems, hsome, hmost, hcards⟩
        cases hitems
        rw [if_neg (by rw [hempty]; omega), if_neg (by omega), List.take_of_length_le hmost]
        exact ⟨clear_nil, hcards⟩
    | _ => exact iff_of_false (not_clear_singleton rfl) fun ⟨_, hv, _⟩ => by cases hv

theorem clear_shopItem (v : Value) : Clear (shopItem path v) ↔
    ∃ fields, v = .object fields ∧ Has fields "cost" (IsNumber 10000) := by
  unfold shopItem
  cases v with
  | object fields =>
    refine (clear_number_upTo Number.isWholeBound_costs).trans ?_
    refine ⟨fun h => ⟨fields, rfl, h⟩, fun ⟨fields', hfields, h⟩ => ?_⟩
    cases hfields
    exact h
  | _ => exact iff_of_false (not_clear_singleton rfl) fun ⟨_, hv, _⟩ => by cases hv

theorem clear_itemRow (items : List Value) (index : Nat) : Clear (itemRow index items) ↔
    ∀ v ∈ items, ∃ fields, v = .object fields ∧ Has fields "cost" (IsNumber 10000) := by
  induction items generalizing index with
  | nil => exact iff_of_true clear_nil (fun _ h => by cases h)
  | cons v rest ih => rw [itemRow, clear_append, clear_shopItem, ih, List.forall_mem_cons]

/-- Items beyond the tenth are not looked at: that there are any is an error already. -/
theorem clear_shopItems : Clear (shopItems fields) ↔ MayHave fields "shop_items" IsShop := by
  unfold shopItems
  cases h : lookup "shop_items" fields with
  | none => exact iff_of_true clear_nil (mayHave_none h)
  | some v =>
    rw [mayHave_some h]
    cases v with
    | array items =>
      dsimp only
      rw [clear_append, clear_if rfl, clear_itemRow, Bounds.maxShopItems]
      constructor
      · rintro ⟨hcount, hitems⟩
        rw [List.take_of_length_le (by omega)] at hitems
        exact ⟨items, rfl, by omega, hitems⟩
      · rintro ⟨items', hitems, hcount, hall⟩
        cases hitems
        rw [List.take_of_length_le hcount]
        exact ⟨by omega, hall⟩
    | _ => exact iff_of_false (not_clear_singleton rfl) fun ⟨_, hv, _⟩ => by cases hv

end Rules

/-- The checks of a kind find an error exactly where its rule is broken. -/
theorem Kind.clear_findings (l : Limits) (data : Fields) (k : Kind) :
    Clear (k.findings l data) ↔ Rule l data k := by
  have hchips : Clear (Requirement.findings l data (.number "chips" .zero Bounds.maxChips false)) ↔
      MayHave data "chips" (IsNumber 1000000000) :=
    Rules.clear_number_upTo Number.isWholeBound_chips
  have hmult : Clear (Requirement.findings l data (.number "mult" .zero Bounds.maxMult false)) ↔
      MayHave data "mult" (IsNumber 1000000) :=
    Rules.clear_number_upTo Number.isWholeBound_money
  have hante : ∀ required, Clear (Requirement.findings l data
      (.integer "ante" 1 Bounds.maxAnte required)) ↔ HasIf required data "ante" (IsInteger 1 100) :=
    fun _ => Rules.clear_integer (by decide)
  have hround : ∀ required, Clear (Requirement.findings l data
      (.integer "round" 1 Bounds.maxRound required)) ↔ HasIf required data "round" (IsInteger 1 10) :=
    fun _ => Rules.clear_integer (by decide)
  have hscore : Clear (Requirement.findings l data (.number "final_score" .zero .largest false)) ↔
      MayHave data "final_score" IsScore := Rules.clear_score
  unfold Kind.findings
  rw [clear_flatMap]
  cases k <;>
    simp only [Kind.requirements, List.forall_mem_cons, List.not_mem_nil, false_implies,
      implies_true, and_true]
  case handPlayed =>
    exact and_congr Rules.clear_handType
      (and_congr (Rules.clear_cards l) (and_congr hchips hmult))
  case shopEntered =>
    exact and_congr (hante true) (and_congr (hround true)
      (and_congr (Rules.clear_number_upTo Number.isWholeBound_money) Rules.clear_shopItems))
  case cardPurchased => exact Rules.clear_number_upTo Number.isWholeBound_costs
  case jokerActivated => exact and_congr hchips hmult
  case gameOver | roundComplete | anteComplete =>
    exact and_congr (hante false) (and_congr (hround false) hscore)
  case gameStart | action | stateUpdate | heartbeat => exact iff_of_true trivial trivial

/-! ## The structure of the data -/

namespace Structure

variable (l : Limits)

/-- The walk finds an error exactly where a limit is broken somewhere inside. -/
theorem clear_findings (v : Value) : ∀ (path : String) (depth : Nat),
    Clear (findings l path depth v) ↔ Everywhere (Bounded l) v depth := by
  induction v using Value.induction with
  | null => exact fun _ _ => iff_of_true clear_nil (everywhere_null.2 trivial)
  | bool b => exact fun _ _ => iff_of_true clear_nil (everywhere_bool.2 trivial)
  | number n =>
    intro path depth
    unfold findings
    rw [if_pos n.isFinite_toDouble]
    exact iff_of_true clear_nil (everywhere_number.2 trivial)
  | string s =>
    intro path depth
    refine iff_of_true (fun f hf => ?_) (everywhere_string.2 trivial)
    unfold findings at hf
    split at hf
    next => rw [List.mem_singleton.1 hf]; rfl
    next => cases hf
  | array items ih =>
    intro path depth
    have hitems : ∀ index, Clear (itemFindings l path depth index items) ↔
        ∀ v ∈ items, Everywhere (Bounded l) v (depth + 1) := by
      induction items with
      | nil => exact fun _ => iff_of_true clear_nil (fun _ h => by cases h)
      | cons v rest ihrest =>
        intro index
        rw [List.forall_mem_cons] at ih
        rw [itemFindings, clear_append, ih.1, ihrest ih.2, List.forall_mem_cons]
    unfold findings
    rw [everywhere_array]
    split
    next hdeep => exact iff_of_false (not_clear_singleton rfl) fun h => by have := h.1.1; omega
    next hdepth =>
      rw [clear_append, clear_if rfl, hitems, not_lt]
      exact and_congr_left' ⟨fun h => ⟨by omega, h⟩, fun h => h.2⟩
  | object fields ih =>
    intro path depth
    have hfields : Clear (fieldFindings l path depth fields) ↔
        ∀ f ∈ fields, f.1.length ≤ l.maxKeyLength ∧ Everywhere (Bounded l) f.2 (depth + 1) := by
      induction fields with
      | nil => exact iff_of_true clear_nil (fun _ h => by cases h)
      | cons f rest ihrest =>
        rw [List.forall_mem_cons] at ih
        rw [fieldFindings, clear_append, ihrest ih.2, List.forall_mem_cons]
        refine and_congr_left' ?_
        split
        next hlong => exact iff_of_false (not_clear_singleton rfl) fun h => by omega
        next hshort => rw [ih.1, and_iff_right (by omega)]
    unfold findings
    rw [everywhere_object]
    split
    next hdeep => exact iff_of_false (not_clear_singleton rfl) fun h => by have := h.1.1; omega
    next hdepth =>
      rw [clear_append, clear_if rfl, hfields, not_lt]
      constructor
      · rintro ⟨hcount, hall⟩
        exact ⟨⟨by omega, hcount, fun f hf => (hall f hf).1⟩, fun f hf => (hall f hf).2⟩
      · rintro ⟨⟨-, hcount, hkeys⟩, hall⟩
        exact ⟨hcount, fun f hf => ⟨hkeys f hf, hall f hf⟩⟩

end Structure

/-! ## The whole event -/

namespace Validation

variable (l : Limits) (nowMs : Int)

theorem clear_keyFindings (key : String) :
    Clear (keyFindings key) ↔ key ∈ ["type", "timestamp", "game_id", "data"] := by
  have hapart : ∀ k ∈ serverFields, k ∉ clientFields := by decide
  unfold keyFindings
  split
  next hserver =>
    exact iff_of_false (not_clear_singleton rfl) (hapart key (List.contains_iff_mem.1 hserver))
  next =>
    refine (clear_unless rfl).trans ?_
    exact List.contains_iff_mem

theorem name_of_ofName? {name : String} {k : Kind} (h : Kind.ofName? name = some k) :
    name = k.name := by
  have := List.find?_some h
  exact (beq_iff_eq.1 this).symm

theorem ofName?_eq_some_iff {name : String} {k : Kind} :
    Kind.ofName? name = some k ↔ name = k.name :=
  ⟨name_of_ofName?, fun h => h ▸ Kind.ofName?_name k⟩

theorem kindOf_eq_some_iff {fields : Fields} {k : Kind} : kindOf l fields = some k ↔
    lookup "type" fields = some (.string k.name) ∧ k ∈ l.allowedKinds := by
  unfold kindOf
  split
  next name h =>
    rw [h, Option.filter_eq_some_iff, ofName?_eq_some_iff, List.contains_iff_mem]
    simp
  next h =>
    refine iff_of_false (fun h => by cases h) fun hk => h _ hk.1

theorem clear_typeFindings {fields : Fields} : Clear (typeFindings l fields) ↔
    MayHave fields "type" (fun _ => ∃ k, kindOf l fields = some k) := by
  unfold typeFindings
  simp only [kindOf_eq_some_iff]
  cases h : lookup "type" fields with
  | none => exact iff_of_true clear_nil (mayHave_none h)
  | some v =>
    rw [mayHave_some h]
    cases v with
    | string name =>
      dsimp only
      split
      next hname =>
        refine iff_of_false (not_clear_singleton rfl) fun ⟨k, hk, _⟩ => ?_
        cases hk
        rw [Kind.ofName?_name] at hname
        cases hname
      next k hname =>
        rw [name_of_ofName? hname, clear_unless rfl, List.contains_iff_mem]
        refine ⟨fun hk => ⟨k, rfl, hk⟩, fun ⟨j, hj, hallowed⟩ => ?_⟩
        have heq := congrArg Kind.ofName? (Value.string.inj (Option.some.inj hj))
        rw [Kind.ofName?_name, Kind.ofName?_name] at heq
        rwa [Option.some.inj heq]
    | _ => exact iff_of_false (not_clear_singleton rfl) fun ⟨_, hk, _⟩ => by cases hk

theorem clear_missingFindings {fields : Fields} : Clear (missingFindings l fields) ↔
    (∃ v, lookup "type" fields = some v) ∧ (∃ v, lookup "timestamp" fields = some v) ∧
      (∃ v, lookup "game_id" fields = some v) ∧
        (needsData l fields = true → ∃ v, lookup "data" fields = some v) := by
  have hplain : ∀ f, f ≠ "data" →
      (¬ ((lookup f fields).isNone && (f != "data" || needsData l fields)) = true ↔
        ∃ v, lookup f fields = some v) := by
    intro f hf
    cases lookup f fields <;> simp [hf]
  have hdata : ¬ ((lookup "data" fields).isNone && ("data" != "data" || needsData l fields)) = true ↔
      (needsData l fields = true → ∃ v, lookup "data" fields = some v) := by
    cases lookup "data" fields <;> simp
  unfold missingFindings missingFields
  dsimp only
  rw [clear_unless rfl, List.isEmpty_iff, List.filter_eq_nil_iff]
  simp only [clientFields, List.forall_mem_cons, List.not_mem_nil, false_implies, implies_true,
    and_true]
  rw [hplain "type" (by decide), hplain "timestamp" (by decide), hplain "game_id" (by decide), hdata]

theorem clear_timestampFindings {fields : Fields} : Clear (timestampFindings l nowMs fields) ↔
    MayHave fields "timestamp" (IsTimestamp l nowMs) := by
  unfold timestampFindings
  cases h : lookup "timestamp" fields with
  | none => exact iff_of_true clear_nil (mayHave_none h)
  | some v =>
    rw [mayHave_some h]
    cases v with
    | number n =>
      have hseconds : normalizeTimestamp n.toDouble = seconds n := by
        unfold normalizeTimestamp seconds
        exact if_congr (Number.ofNat_lt_iff Number.isWholeBound_milliseconds n) rfl rfl
      have hnegative : (!n.toDouble.isFinite || n.toDouble.lt .zero) = true ↔ ¬ 0 ≤ n.value := by
        rw [n.isFinite_toDouble, Bool.not_true, Bool.false_or, n.lt_zero_iff]
      have hfar : isFar l nowMs n.toDouble = (real l.timestampTolerance).lt
          ((seconds n).sub ((Double.ofInt nowMs).div (real 1000))).abs := by
        unfold isFar
        rw [hseconds]
        rfl
      show Clear (if _ then _ else if _ then _ else _) ↔ _
      rw [hfar]
      split
      next h =>
        refine iff_of_false (not_clear_singleton rfl) ?_
        rintro ⟨m, hm, hnonneg, -⟩
        cases hm
        exact hnegative.1 h hnonneg
      next h =>
        rw [clear_if rfl, Bool.not_eq_true]
        have hnonneg := not_not.1 (mt hnegative.2 h)
        refine ⟨fun hnear => ⟨n, rfl, hnonneg, hnear⟩, fun ⟨m, hm, _, hnear⟩ => ?_⟩
        cases hm
        exact hnear
    | _ => exact iff_of_false (not_clear_singleton rfl) fun ⟨_, hn, _⟩ => by cases hn

theorem clear_gameIdFindings {fields : Fields} : Clear (gameIdFindings l fields) ↔
    MayHave fields "game_id" (IsGameId l.maxGameIdLength) := by
  unfold gameIdFindings
  cases h : lookup "game_id" fields with
  | none => exact iff_of_true clear_nil (mayHave_none h)
  | some v =>
    rw [mayHave_some h]
    cases v with
    | string id =>
      dsimp only
      rw [clear_unless rfl]
      unfold isGameId IsGameId
      simp [and_assoc]
    | _ => exact iff_of_false (not_clear_singleton rfl) fun ⟨_, hid, _⟩ => by cases hid

theorem clear_dataFindings {fields : Fields} {k : Kind} (hk : kindOf l fields = some k) :
    Clear (dataFindings l fields) ↔ MayHave fields "data" (IsData l k) := by
  unfold dataFindings
  cases h : lookup "data" fields with
  | none => exact iff_of_true clear_nil (mayHave_none h)
  | some v =>
    rw [mayHave_some h]
    cases v with
    | object data =>
      dsimp only
      rw [clear_append, Structure.clear_findings, hk, Option.map_some, Option.getD_some,
        Kind.clear_findings]
      refine ⟨fun ⟨hbounded, hrule⟩ => ⟨data, rfl, hbounded, hrule⟩, fun ⟨data', heq, hdata⟩ => ?_⟩
      cases heq
      exact hdata
    | _ => exact iff_of_false (not_clear_singleton rfl) fun ⟨_, hd, _⟩ => by cases hd

theorem needsData_eq {fields : Fields} {k : Kind} (h : kindOf l fields = some k) :
    needsData l fields = true ↔ k ≠ .heartbeat := by
  unfold needsData Kind.requiresData
  rw [h, Option.map_some, Option.getD_some, bne_iff_ne]

/-- The fields of an event ahead of its data. -/
theorem clear_headFindings {fields : Fields} :
    Clear (headFindings l nowMs fields) ↔ ∃ k, IsHeadOf l nowMs fields k := by
  unfold headFindings
  rw [clear_append, clear_append, clear_append, clear_append, clear_flatMap, clear_typeFindings,
    clear_missingFindings, clear_timestampFindings, clear_gameIdFindings]
  simp only [clear_keyFindings]
  constructor
  · rintro ⟨⟨⟨⟨hkeys, htype⟩, ⟨v, hv⟩, htimestamp, hgame, hneeded⟩, htime⟩, hid⟩
    obtain ⟨k, hk⟩ := htype v hv
    obtain ⟨hkind, henabled⟩ := (kindOf_eq_some_iff l).1 hk
    exact ⟨k, hkeys, hkind, henabled, has_iff.2 ⟨htimestamp, htime⟩, has_iff.2 ⟨hgame, hid⟩,
      fun hne => hneeded ((needsData_eq l hk).2 hne)⟩
  · rintro ⟨k, h⟩
    have hk := (kindOf_eq_some_iff l).2 ⟨h.kind, h.enabled⟩
    obtain ⟨htimestamp, htime⟩ := has_iff.1 h.timestamp
    obtain ⟨hgame, hid⟩ := has_iff.1 h.gameId
    exact ⟨⟨⟨⟨h.keys, fun _ _ => ⟨k, hk⟩⟩, ⟨_, h.kind⟩, htimestamp, hgame,
      fun hneeded => h.complete ((needsData_eq l hk).1 hneeded)⟩, htime⟩, hid⟩

/-- The fields of an event, whose size is checked before them. -/
theorem clear_fieldsFindings {fields : Fields}
    (hsize : (Value.object fields).render.utf8ByteSize ≤ l.maxEventBytes) :
    Clear (fieldsFindings l nowMs fields) ↔ ∃ k, IsEventOf l nowMs fields k := by
  have hparts : fieldsFindings l nowMs fields =
    headFindings l nowMs fields ++ dataFindings l fields := rfl
  rw [hparts, clear_append, clear_headFindings]
  constructor
  · rintro ⟨⟨k, h⟩, hdata⟩
    have hk := (kindOf_eq_some_iff l).2 ⟨h.kind, h.enabled⟩
    exact ⟨k, h, hsize, (clear_dataFindings l hk).1 hdata⟩
  · rintro ⟨k, h⟩
    have hk := (kindOf_eq_some_iff l).2 ⟨h.kind, h.enabled⟩
    exact ⟨⟨k, h.toIsHeadOf⟩, (clear_dataFindings l hk).2 h.data⟩

/-- The checks find an error exactly where a value is no event. -/
theorem clear_findings (v : Value) : Clear (findings l nowMs v) ↔ IsEvent l nowMs v := by
  unfold findings IsEvent
  cases v with
  | object fields =>
    dsimp only
    split
    next hlarge =>
      refine iff_of_false (not_clear_singleton rfl) ?_
      rintro ⟨fields', k, heq, h⟩
      cases heq
      have := h.size
      omega
    next hsize =>
      rw [clear_fieldsFindings l nowMs (by omega)]
      simp
  | _ => exact iff_of_false (not_clear_singleton rfl) fun ⟨_, _, heq, _⟩ => by cases heq

/-- Findings that reject, and come first, decide the verdict. -/
theorem isValid_of_rejecting {fs : List Finding} (h : Rejecting fs) (hne : fs ≠ [])
    (gs : List Finding) : (Report.ofFindings (fs ++ gs)).isValid = false := by
  refine (Report.isValid_ofFindings _).2 ⟨?_, ?_⟩
  · cases fs with
    | nil => exact absurd rfl hne
    | cons f fs =>
      have hf : ¬ f.warns = true := List.countP_eq_zero.1 h f List.mem_cons_self
      simpa [Finding.warns] using Or.inl hf
  · rw [Finding.leadingWarnings_append h hne]
    decide

/-- Findings that reject, and come first, are none where a value is found valid: only data draws
warnings, so an error ahead of it is among those that the report keeps. -/
theorem eq_nil_of_isValid {v : Value} (h : (validate l nowMs v).isValid = true)
    {fs gs : List Finding} (hfs : Rejecting fs) (heq : findings l nowMs v = fs ++ gs) : fs = [] := by
  by_contra hne
  rw [validate, heq, isValid_of_rejecting hfs hne] at h
  cases h

/-- The fields of a value that is found valid are checked. -/
theorem findings_of_isValid {v : Value} (h : (validate l nowMs v).isValid = true) :
    ∃ fields, v = .object fields ∧
      findings l nowMs v = headFindings l nowMs fields ++ dataFindings l fields := by
  have hnone : ∀ f : Finding, f.rejects = true → findings l nowMs v ≠ [f] := fun f hf heq =>
    List.cons_ne_nil _ _ (eq_nil_of_isValid l nowMs h (Rejecting.singleton hf) (List.append_nil [f] ▸ heq))
  unfold findings at hnone ⊢
  cases v with
  | object fields =>
    dsimp only at hnone ⊢
    split at hnone
    next => exact absurd rfl (hnone _ rfl)
    next hsize => exact ⟨fields, rfl, if_neg hsize⟩
  | _ => exact absurd rfl (hnone _ rfl)

/-- A value that is found valid is an event, but for what is in its data. -/
theorem isHeadOf_of_isValid {v : Value} (h : (validate l nowMs v).isValid = true) :
    ∃ fields k, v = .object fields ∧ IsHeadOf l nowMs fields k := by
  obtain ⟨fields, rfl, heq⟩ := findings_of_isValid l nowMs h
  have hhead := eq_nil_of_isValid l nowMs h (rejecting_headFindings l nowMs fields) heq
  obtain ⟨k, hk⟩ := (clear_headFindings l nowMs).1 (hhead ▸ clear_nil)
  exact ⟨fields, k, rfl, hk⟩

/-- Its data, if there is any, is an object. -/
theorem isObject_of_isValid {fields : Fields}
    (h : (validate l nowMs (.object fields)).isValid = true) :
    MayHave fields "data" fun v => ∃ data, v = .object data := by
  intro v hv
  obtain ⟨_, hfields, heq⟩ := findings_of_isValid l nowMs h
  cases hfields
  by_contra hother
  have hdata : dataFindings l fields = [⟨"data", .dataNotObject⟩] := by
    unfold dataFindings
    rw [hv]
    cases v with
    | object data => exact absurd ⟨data, rfl⟩ hother
    | _ => rfl
  have hrejecting : Rejecting (headFindings l nowMs fields ++ [⟨"data", .dataNotObject⟩]) :=
    (rejecting_headFindings l nowMs fields).append (Rejecting.singleton rfl)
  rw [hdata, ← List.append_nil (_ ++ _)] at heq
  exact List.append_ne_nil_of_right_ne_nil _ (List.cons_ne_nil _ _)
    (eq_nil_of_isValid l nowMs h hrejecting heq)

/-- **The checks find exactly what breaks the grammar.** A report holds the first findings of a
value, and among all its findings there is an error exactly when the value is no event. -/
theorem validate_exact (v : Value) :
    (validate l nowMs v).findings = (findings l nowMs v).take 32 ∧
      ((∃ f ∈ findings l nowMs v, f.problem.severity = .error) ↔ ¬ IsEvent l nowMs v) := by
  refine ⟨Report.findings_ofFindings _, ?_⟩
  rw [← clear_findings, Clear, not_forall]
  refine exists_congr fun f => ?_
  rw [Classical.not_imp, Finding.rejects, Bool.not_eq_false, beq_iff_eq]

end Validation

end Ingress
