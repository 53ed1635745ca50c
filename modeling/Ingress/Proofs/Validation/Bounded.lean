import Ingress.Proofs.Config.Limits
import Ingress.Proofs.Text.Length
import Ingress.Proofs.Validation.Verdict
import Mathlib

/-!
# The size of a report

A client decides what stands in an event, but not how much of it comes back. A path grows by one
segment with each level of the data, the levels are limited, and a key goes into a path only where
it is no longer than keys may be, else cut. Messages are fixed texts around numbers of 64 bits and
client text that is cut.

* `Limits.Words` : limits as they are stored;
* `Problem.Fits`, `Problem.length_message` : problems whose messages are short;
* `Within` : findings with short paths and messages;
* `Structure.HasRoom`, `Structure.within_findings` : the room that a path leaves for the levels
  below it, and the walk over the data;
* `Kind.within_findings` : the rule of a kind;
* `validate_bounded` : every report.
-/

namespace Ingress

open Json

/-- Limits as they are stored, in numbers of 64 bits. -/
structure Limits.Words (l : Limits) : Prop where
  maxEventBytes : IsWord l.maxEventBytes
  timestampTolerance : IsWord l.timestampTolerance
  maxGameIdLength : IsWord l.maxGameIdLength
  maxProperties : IsWord l.maxProperties
  maxElements : IsWord l.maxElements
  maxDepth : IsWord l.maxDepth
  maxKeyLength : IsWord l.maxKeyLength
  maxStringLength : IsWord l.maxStringLength
  maxHandSize : IsWord l.maxHandSize

/-! ## Messages -/

theorem Kind.length_name_le (k : Kind) : k.name.length ≤ 15 := by
  cases k <;> exact length_literal (by decide)

namespace Problem

/-- No message is longer. -/
def maxMessage : Nat := 400

/-- What a message takes from the event or the limits is short. -/
def Fits : Problem → Prop
  | .tooLarge size max => IsWord size ∧ IsWord max
  | .unknownType quoted => quoted.length ≤ Bounds.quotedChars
  | .missing fields => fields.Sublist Validation.clientFields
  | .timestampFar tolerance => IsWord tolerance
  | .gameIdMalformed maxLength => IsWord maxLength
  | .tooDeep max => IsWord max
  | .tooManyProperties count max => IsWord count ∧ IsWord max
  | .keyTooLong max => IsWord max
  | .tooManyElements count max => IsWord count ∧ IsWord max
  | .truncated max => IsWord max
  | .outsideReals low high =>
    (between (Layout.plain.text low) (Layout.plain.text high)).length ≤ maxMessage
  | .outsideIntegers low high => (between (toString low) (toString high)).length ≤ maxMessage
  | .tooManyCards count max => IsWord count ∧ IsWord max
  | .tooManyItems count max => IsWord count ∧ IsWord max
  | _ => True

theorem length_message_missing {fields : List String}
    (h : fields.Sublist Validation.clientFields) :
    (message (.missing fields)).length ≤ maxMessage := by
  have hnames := (length_intercalate_le ", " fields).trans
    ((h.map _).sum_le_sum fun _ _ => Nat.zero_le _)
  have hlength := String.length_append "missing required fields: " (", ".intercalate fields)
  exact hlength.le.trans ((Nat.add_le_add_left hnames _).trans (by decide))

/-- **A problem that fits has a short message.** -/
theorem length_message {p : Problem} (h : p.Fits) : p.message.length ≤ maxMessage := by
  cases p with
  | tooLarge =>
    exact le_trans (length_append_le (length_two_words h) (length_literal le_rfl)) (by decide)
  | unknownType =>
    exact le_trans (length_between (show _ ≤ 50 from h)) (by decide)
  | typeDisabled kind => exact le_trans (length_between kind.length_name_le) (by decide)
  | missing fields => exact length_message_missing h
  | timestampFar | gameIdMalformed | truncated =>
    exact le_trans (length_between (IsWord.length_toString h)) (by decide)
  | tooDeep | keyTooLong => exact le_trans (length_word h) (by decide)
  | tooManyProperties | tooManyElements | tooManyCards | tooManyItems =>
    exact le_trans (length_two_words h) (by decide)
  | outsideReals | outsideIntegers => exact h
  | _ => exact length_literal (by decide)

end Problem

/-! ## Findings -/

def Limits.maxPath (l : Limits) : Nat :=
  max 64 (4 + l.maxDepth * (max l.maxKeyLength Bounds.quotedChars + 1))

/-- A finding with a short path and a short message. -/
structure Finding.Within (l : Limits) (f : Finding) : Prop where
  field : f.field.length ≤ l.maxPath
  problem : f.problem.Fits

/-- Findings with short paths and messages. -/
def Within (l : Limits) (fs : List Finding) : Prop := ∀ f ∈ fs, f.Within l

namespace Within

variable {l : Limits} {fs gs : List Finding}

theorem nil : Within l [] := fun _ h => by cases h

theorem singleton {path : String} {problem : Problem} (hpath : path.length ≤ l.maxPath)
    (hproblem : problem.Fits) : Within l [⟨path, problem⟩] := by
  intro f hf
  rw [List.mem_singleton] at hf
  rw [hf]
  exact ⟨hpath, hproblem⟩

theorem short {path : String} {problem : Problem} (hpath : path.length ≤ 64)
    (hproblem : problem.Fits) : Within l [⟨path, problem⟩] :=
  singleton (hpath.trans (Nat.le_max_left ..)) hproblem

/-- A path that is written out. -/
theorem fixed {path : List Char} {problem : Problem} (hproblem : problem.Fits)
    (hpath : path.length ≤ 64) : Within l [⟨String.ofList path, problem⟩] :=
  short (length_literal hpath) hproblem

theorem append (hfs : Within l fs) (hgs : Within l gs) : Within l (fs ++ gs) :=
  List.forall_mem_append.2 ⟨hfs, hgs⟩

theorem flatMap {α : Type} {f : α → List Finding} {xs : List α} (h : ∀ x ∈ xs, Within l (f x)) :
    Within l (xs.flatMap f) := by
  intro g hg
  obtain ⟨x, hx, hgx⟩ := List.mem_flatMap.1 hg
  exact h x hx g hgx

theorem ite {p : Prop} [Decidable p] (h : p → Within l fs) :
    Within l (if p then fs else []) := by
  split
  next hp => exact h hp
  next => exact nil

theorem ite_not {p : Prop} [Decidable p] (h : Within l fs) : Within l (if p then [] else fs) := by
  split
  next => exact nil
  next => exact h

end Within

/-! ## Sizes -/

theorem Structure.length_quote_le (text : String) : (quote text).length ≤ Bounds.quotedChars := by
  unfold quote Text.firstChars
  rw [String.length_ofList, List.length_take]
  exact Nat.min_le_left ..

theorem Structure.length_fieldPath (path key : String) :
    (fieldPath path key).length = path.length + (1 + key.length) := by
  unfold fieldPath
  rw [String.length_append, String.length_append, Nat.add_assoc]
  rfl

theorem Structure.length_dataPath_le {name : String} (h : name.length ≤ 59) :
    (fieldPath "data" name).length ≤ 64 := by
  have hdata : "data".length = 4 := rfl
  rw [length_fieldPath]
  omega

theorem Structure.length_elementPath_le (path : String) {index k : Nat} (hk : 0 < k)
    (h : index < 10 ^ k) : (elementPath path index).length ≤ path.length + (k + 2) := by
  have hdigits : (toString index).length ≤ k := Nat.repr_length index k hk h
  have hopen : "[".length = 1 := rfl
  have hclose : "]".length = 1 := rfl
  unfold elementPath
  simp only [String.length_append]
  omega

/-! ## The walk over the data -/

namespace Structure

variable {l : Limits}

def maxSegment (l : Limits) : Nat := max l.maxKeyLength Bounds.quotedChars + 1

/-- A path at a depth leaves room for a segment at each level that may still come. -/
def HasRoom (l : Limits) (path : String) (depth : Nat) : Prop :=
  path.length + (l.maxDepth + 1 - depth) * maxSegment l ≤ 4 + l.maxDepth * maxSegment l

theorem HasRoom.length_le {path : String} {depth : Nat} (h : HasRoom l path depth) :
    path.length ≤ l.maxPath :=
  ((Nat.le_add_right ..).trans h).trans (Nat.le_max_right ..)

/-- A level that is walked gives its room to a segment. -/
theorem HasRoom.child {path child : String} {depth : Nat} (h : HasRoom l path depth)
    (hdepth : depth ≤ l.maxDepth) (hchild : child.length ≤ path.length + maxSegment l) :
    HasRoom l child (depth + 1) := by
  unfold HasRoom at *
  rw [show l.maxDepth + 1 - depth = l.maxDepth + 1 - (depth + 1) + 1 by omega,
    Nat.succ_mul] at h
  omega

theorem HasRoom.field {path key : String} {depth : Nat} (h : HasRoom l path depth)
    (hdepth : depth ≤ l.maxDepth) (hkey : key.length ≤ max l.maxKeyLength Bounds.quotedChars) :
    HasRoom l (fieldPath path key) (depth + 1) := by
  refine h.child hdepth ?_
  rw [length_fieldPath, Nat.add_comm 1]
  exact Nat.add_le_add_left (Nat.add_le_add_right hkey 1) _

theorem HasRoom.element {path : String} {depth index : Nat} (h : HasRoom l path depth)
    (hdepth : depth ≤ l.maxDepth) (hindex : index < 10 ^ 7) :
    HasRoom l (elementPath path index) (depth + 1) := by
  have hlength := length_elementPath_le path (by decide) hindex
  have hquoted : 50 ≤ max l.maxKeyLength Bounds.quotedChars := Nat.le_max_right ..
  refine h.child hdepth (hlength.trans (Nat.add_le_add_left ?_ _))
  unfold maxSegment
  omega

/-- The depth of data leaves room for all levels. -/
theorem hasRoom_data (l : Limits) : HasRoom l "data" 1 := Nat.le_of_eq rfl

mutual

/-- The walk over a value of an event that is not too large. -/
theorem within_findings (hwords : l.Words) {path : String} {depth : Nat}
    (hroom : HasRoom l path depth) : ∀ v : Value, v.chars.length ≤ 1048576 →
      Within l (findings l path depth v)
  | .null, _ => .nil
  | .bool _, _ => .nil
  | .number n, _ => by
    unfold findings
    exact .ite_not (.singleton hroom.length_le trivial)
  | .string s, _ => by
    unfold findings
    exact .ite fun _ => .singleton hroom.length_le hwords.maxStringLength
  | .array items, hsize => by
    have hcount := (length_lt_chars_array items).le.trans hsize
    have hitems := (length_chars_array items).trans hsize
    have hmany : IsWord items.length := .of_le hcount (by decide)
    unfold findings
    split
    next => exact .singleton hroom.length_le hwords.maxDepth
    next hdepth =>
      refine .append (.ite fun _ => .singleton hroom.length_le ⟨hmany, hwords.maxElements⟩) ?_
      exact within_itemFindings hwords hroom (by omega) 0 items hitems (by omega)
  | .object fields, hsize => by
    have hcount := (length_lt_chars_object fields).le.trans hsize
    have hfields := (length_chars_object fields).trans hsize
    have hmany : IsWord fields.length := .of_le hcount (by decide)
    unfold findings
    split
    next => exact .singleton hroom.length_le hwords.maxDepth
    next hdepth =>
      refine .append (.ite fun _ => .singleton hroom.length_le ⟨hmany, hwords.maxProperties⟩) ?_
      exact within_fieldFindings hwords hroom (by omega) fields hfields

theorem within_itemFindings (hwords : l.Words) {path : String} {depth : Nat}
    (hroom : HasRoom l path depth) (hdepth : depth ≤ l.maxDepth) (index : Nat) :
    ∀ items : List Value, (itemsChars items).length ≤ 1048576 → index + items.length ≤ 1048576 →
      Within l (itemFindings l path depth index items)
  | [], _, _ => .nil
  | v :: rest, hsize, hcount => by
    have hcons := length_itemsChars_cons v rest
    rw [List.length_cons] at hcount
    unfold itemFindings
    exact (within_findings hwords (hroom.element hdepth (by omega)) v (by omega)).append
      (within_itemFindings hwords hroom hdepth (index + 1) rest (by omega) (by omega))

theorem within_fieldFindings (hwords : l.Words) {path : String} {depth : Nat}
    (hroom : HasRoom l path depth) (hdepth : depth ≤ l.maxDepth) : ∀ fields : Fields,
    (fieldsChars fields).length ≤ 1048576 → Within l (fieldFindings l path depth fields)
  | [], _ => .nil
  | (key, v) :: rest, hsize => by
    have hcons := length_fieldsChars_cons key v rest
    have hrest := within_fieldFindings hwords hroom hdepth rest (by omega)
    unfold fieldFindings
    refine .append ?_ hrest
    -- a key that is too long is cut in the path, and what stands under it is not walked
    split
    next =>
      have hquote := (length_quote_le key).trans (Nat.le_max_right l.maxKeyLength _)
      exact .singleton (hroom.field hdepth hquote).length_le hwords.maxKeyLength
    next hkey =>
      have hshort := (Nat.le_of_not_lt hkey).trans (Nat.le_max_left _ Bounds.quotedChars)
      exact within_findings hwords (hroom.field hdepth hshort) v (by omega)

end

end Structure

/-! ## Rules of the kinds -/

/-- The field of a requirement has a short name, and its bounds have short texts. -/
def Requirement.Fits : Requirement → Prop
  | .number name low high _ =>
    name.length ≤ 59 ∧ 21 + Layout.plainRoom low + Layout.plainRoom high ≤ Problem.maxMessage
  | .integer name low high _ =>
    name.length ≤ 59 ∧ 21 + (toString low).length + (toString high).length ≤ Problem.maxMessage
  | _ => True

instance : DecidablePred Requirement.Fits
  | .number .. => inferInstanceAs (Decidable (_ ≤ _ ∧ _ ≤ _))
  | .integer .. => inferInstanceAs (Decidable (_ ≤ _ ∧ _ ≤ _))
  | .handType | .cards | .shopItems => inferInstanceAs (Decidable True)

theorem Kind.requirements_fit (k : Kind) : ∀ r ∈ k.requirements, r.Fits := by
  cases k <;> decide +kernel

theorem Problem.length_between_le {low high : String} {j k : Nat} (hlow : low.length ≤ j)
    (hhigh : high.length ≤ k) (hroom : 21 + j + k ≤ maxMessage) :
    (between low high).length ≤ maxMessage := by
  refine (length_append_le (length_between hlow) hhigh).trans ?_
  show 16 + j + 5 + k ≤ maxMessage
  omega

namespace Rules

variable {l : Limits} {fields : Fields} {path name : String} {required : Bool}

theorem within_number {low high : Double} (hpath : path.length ≤ 64)
    (hroom : 21 + Layout.plainRoom low + Layout.plainRoom high ≤ Problem.maxMessage) :
    Within l (number fields path name low high required) := by
  unfold number
  split
  next => exact .ite fun _ => .short hpath trivial
  next =>
    split
    next => exact .short hpath trivial
    next =>
      refine .ite_not ?_
      split
      next => exact .short hpath trivial
      next =>
        exact .short hpath (Problem.length_between_le (Layout.length_plain_le low)
          (Layout.length_plain_le high) hroom)

theorem within_integer {low high : Int} (hpath : path.length ≤ 64)
    (hroom : 21 + (toString low).length + (toString high).length ≤ Problem.maxMessage) :
    Within l (integer fields path name low high required) := by
  unfold integer
  split
  next => exact .ite fun _ => .short hpath trivial
  next =>
    split
    next => exact .short hpath trivial
    next => exact .ite_not (.short hpath (Problem.length_between_le le_rfl le_rfl hroom))

theorem within_handType : Within l (handType fields) := by
  unfold handType
  split
  next => exact .fixed trivial (by decide)
  next => exact .ite_not (.fixed trivial (by decide))
  next => exact .fixed trivial (by decide)

theorem within_card (hpath : path.length ≤ 59) (v : Value) : Within l (card path v) := by
  have hpart : ∀ {part : List Char}, part.length ≤ 5 → (path ++ String.ofList part).length ≤ 64 :=
    fun hpart => length_append_le hpath (length_literal hpart)
  unfold card
  split
  next =>
    exact .append (.ite_not (.short (hpart (by decide)) trivial))
      (.ite_not (.short (hpart (by decide)) trivial))
  next => exact .ite_not (.short (by omega) trivial)
  next => exact .short (by omega) trivial

theorem within_cardRow (items : List Value) (index : Nat) (h : index + items.length ≤ 52) :
    Within l (cardRow index items) := by
  induction items generalizing index with
  | nil => exact .nil
  | cons v rest ih =>
    rw [List.length_cons] at h
    have hpath : (Structure.elementPath "data.cards_played" index).length ≤ 17 + (2 + 2) :=
      Structure.length_elementPath_le _ (by decide) (by omega)
    exact (within_card (by omega) v).append (ih (index + 1) (by omega))

theorem within_cards (hwords : l.Words) (hhand : l.maxHandSize ≤ 52)
    (hsize : (Value.object fields).chars.length ≤ 1048576) : Within l (cards l fields) := by
  unfold cards
  split
  next => exact .fixed trivial (by decide)
  next items hitems =>
    have hcount := (length_lt_chars_array items).le.trans (length_chars_lookup hitems)
    have hmany : IsWord items.length := .of_le (hcount.trans hsize) (by decide)
    refine .append ?_ (within_cardRow _ 0 ?_)
    · split
      next => exact .fixed trivial (by decide)
      next => exact .ite fun _ => .fixed ⟨hmany, hwords.maxHandSize⟩ (by decide)
    · rw [List.length_take]
      omega
  next => exact .fixed trivial (by decide)

theorem within_shopItem (hpath : path.length ≤ 59) (v : Value) :
    Within l (shopItem path v) := by
  unfold shopItem
  split
  next =>
    refine within_number ?_ (by decide +kernel)
    rw [Structure.length_fieldPath]
    exact Nat.add_le_add_right hpath 5
  next => exact .short (by omega) trivial

theorem within_itemRow (items : List Value) (index : Nat) (h : index + items.length ≤ 10) :
    Within l (itemRow index items) := by
  induction items generalizing index with
  | nil => exact .nil
  | cons v rest ih =>
    rw [List.length_cons] at h
    have hpath : (Structure.elementPath "data.shop_items" index).length ≤ 15 + (1 + 2) :=
      Structure.length_elementPath_le _ (by decide) (by omega)
    exact (within_shopItem (by omega) v).append (ih (index + 1) (by omega))

theorem within_shopItems (hsize : (Value.object fields).chars.length ≤ 1048576) :
    Within l (shopItems fields) := by
  unfold shopItems
  split
  next => exact .nil
  next items hitems =>
    have hcount := (length_lt_chars_array items).le.trans (length_chars_lookup hitems)
    have hmany : IsWord items.length := .of_le (hcount.trans hsize) (by decide)
    refine .append (.ite fun _ => .fixed ⟨hmany, .of_le le_rfl (by decide)⟩ (by decide)) ?_
    refine within_itemRow _ 0 ?_
    rw [List.length_take, Nat.zero_add]
    exact Nat.min_le_left ..
  next => exact .fixed trivial (by decide)

end Rules

/-- The rule of a kind. -/
theorem Kind.within_findings {l : Limits} (hwords : l.Words) (hhand : l.maxHandSize ≤ 52)
    {fields : Fields} (hsize : (Value.object fields).chars.length ≤ 1048576) (k : Kind) :
    Within l (k.findings l fields) := by
  refine .flatMap fun r hr => ?_
  have hfits := k.requirements_fit r hr
  cases r with
  | number => exact Rules.within_number (Structure.length_dataPath_le hfits.1) hfits.2
  | integer => exact Rules.within_integer (Structure.length_dataPath_le hfits.1) hfits.2
  | handType => exact Rules.within_handType
  | cards => exact Rules.within_cards hwords hhand hsize
  | shopItems => exact Rules.within_shopItems hsize

/-! ## Reports -/

namespace Validation

variable {l : Limits} {nowMs : Int} {fields : Fields}

theorem within_keyFindings (key : String) : Within l (keyFindings key) := by
  have hquote := Structure.length_quote_le key
  unfold keyFindings
  split
  next hserver =>
    have hlengths : ∀ k ∈ serverFields, k.length ≤ 64 := by decide
    exact .short (hlengths key (List.elem_iff.1 hserver)) trivial
  next => exact .ite_not (.short (hquote.trans (by decide)) trivial)

theorem within_typeFindings : Within l (typeFindings l fields) := by
  unfold typeFindings
  split
  next => exact .nil
  next name _ =>
    split
    next => exact .fixed (Structure.length_quote_le name) (by decide)
    next => exact .ite_not (.fixed trivial (by decide))
  next => exact .fixed trivial (by decide)

theorem within_missingFindings : Within l (missingFindings l fields) := by
  unfold missingFindings
  exact .ite_not (.fixed List.filter_sublist (by decide))

theorem within_timestampFindings (hwords : l.Words) :
    Within l (timestampFindings l nowMs fields) := by
  unfold timestampFindings
  split
  next => exact .nil
  next =>
    split
    next => exact .fixed trivial (by decide)
    next =>
      split
      next => exact .fixed trivial (by decide)
      next => exact .ite fun _ => .fixed hwords.timestampTolerance (by decide)

theorem within_gameIdFindings (hwords : l.Words) : Within l (gameIdFindings l fields) := by
  unfold gameIdFindings
  split
  next => exact .nil
  next => exact .ite_not (.fixed hwords.maxGameIdLength (by decide))
  next => exact .fixed trivial (by decide)

theorem within_dataFindings (hwords : l.Words) (hhand : l.maxHandSize ≤ 52)
    (hsize : (Value.object fields).chars.length ≤ 1048576) : Within l (dataFindings l fields) := by
  unfold dataFindings
  split
  next => exact .nil
  next data hdata =>
    have hdatasize := (length_chars_lookup hdata).trans hsize
    refine .append (Structure.within_findings hwords (Structure.hasRoom_data l) _ hdatasize) ?_
    cases kindOf l fields with
    | none => exact .nil
    | some k => exact Kind.within_findings hwords hhand hdatasize k
  next => exact .fixed trivial (by decide)

/-- The findings of a value, however many there are. -/
theorem within_findings (hrules : Limits.config.violations l = []) (hwords : l.Words) {v : Value}
    (hsize : IsWord v.render.utf8ByteSize) : Within l (findings l nowMs v) := by
  unfold findings
  split
  next fields =>
    dsimp only
    split
    next => exact .fixed ⟨hsize, hwords.maxEventBytes⟩ (by decide)
    next hbytes =>
      have hchars : (Value.object fields).chars.length ≤ 1048576 :=
        (length_chars_le_render _).trans
          ((Nat.le_of_not_lt hbytes).trans (Limits.maxEventBytes_le hrules))
      have hhand := Limits.maxHandSize_le hrules
      exact (((((Within.flatMap fun f _ => within_keyFindings f.1).append within_typeFindings).append
        within_missingFindings).append (within_timestampFindings hwords)).append
        (within_gameIdFindings hwords)).append (within_dataFindings hwords hhand hchars)
  next => exact .fixed trivial (by decide)

/-- **The size of a report.** Under limits that break no rule, a report holds at most 32 findings,
and their paths and messages have a bounded length, whatever the value is. Sizes are numbers of 64
bits, those of the limits and that of the text. -/
theorem validate_bounded {l : Limits} (hrules : Limits.config.violations l = [])
    (hwords : l.Words) (nowMs : Int) {v : Value} (hsize : IsWord v.render.utf8ByteSize) :
    (validate l nowMs v).findings.length ≤ 32 ∧
    ∀ f ∈ (validate l nowMs v).findings,
      f.notice.field.length ≤ max 64 (4 + l.maxDepth * (max l.maxKeyLength 50 + 1)) ∧
      f.notice.message.length ≤ 400 := by
  refine ⟨(validate l nowMs v).bounded, fun f hf => ?_⟩
  unfold validate at hf
  rw [Report.findings_ofFindings] at hf
  have hwithin := within_findings hrules hwords hsize f (List.mem_of_mem_take hf)
  exact ⟨hwithin.field, Problem.length_message hwithin.problem⟩

/-- Limits with two levels of data and one character of every string. -/
def shallow : Limits := { Limits.standard with maxDepth := 2, maxStringLength := 1 }

/-- A long string under the longest keys, at the deepest level. -/
def buried : Value :=
  let key := String.ofList (.replicate 50 'k')
  .object [("data", .object [(key, .object [(key, .string "xx")])]), ("game_id", .string "g"),
    ("timestamp", .number (.ofInt 1700000000)), ("type", .string "state_update")]

/-- The path of the string is as long as a path can be. -/
theorem buried_bounded : Limits.config.violations shallow = [] ∧ shallow.Words ∧
    IsWord buried.render.utf8ByteSize ∧
    ((validate shallow 1700000000000 buried).findings.map fun f => f.notice.field.length)
      = [4 + shallow.maxDepth * (max shallow.maxKeyLength 50 + 1)] ∧
    ((validate shallow 1700000000000 buried).findings.length ≤ 32 ∧
    ∀ f ∈ (validate shallow 1700000000000 buried).findings,
      f.notice.field.length ≤ max 64 (4 + shallow.maxDepth * (max shallow.maxKeyLength 50 + 1)) ∧
      f.notice.message.length ≤ 400) := by
  have hrules : Limits.config.violations shallow = [] := by decide +kernel
  have hwords : shallow.Words := by constructor <;> decide
  have hsize : IsWord buried.render.utf8ByteSize := by decide +kernel
  exact ⟨hrules, hwords, hsize, by decide +kernel, validate_bounded hrules hwords _ hsize⟩

end Validation

end Ingress
