import Mathlib
import PacketStream.Json.Parser
import PacketStream.Json.Printer
import PacketStream.Proofs.Json.Spelling

/-!
# The compact text of a document

The compact text of a value takes no more room than the tokens that the value was read from
(`size_of_foldlM`): it has the same tokens in another order, and fewer where an object has several
members with one key. The parser carries the proof: the tokens that it has taken pay for the texts of
what it holds.
-/

namespace PacketStream.Json

namespace Room

variable (r : Room)

/-! ## Texts of values -/

/-- The room that the compact text of a value takes. -/
def value (v : Json) : Nat := r.size (valueOnto [] v)

/-- The room that the compact text of a member takes. -/
def member (m : String × Json) : Nat := r.size (memberOnto [] m)

/-- The room that items take, each with a comma. -/
def items (items : List Json) : Nat := (items.map fun v => r.value v + 1).sum

/-- The room that members take, each with a comma. -/
def members (members : List (String × Json)) : Nat := (members.map fun m => r.member m + 1).sum

@[simp] theorem items_cons (v : Json) (rest : List Json) :
    r.items (v :: rest) = r.value v + 1 + r.items rest := rfl

@[simp] theorem members_cons (m : String × Json) (rest : List (String × Json)) :
    r.members (m :: rest) = r.member m + 1 + r.members rest := rfl

theorem size_reverseAux (chars done : List Char) :
    r.size (chars.reverseAux done) = r.size done + r.size chars := by
  rw [List.reverseAux_eq, size_append, size_reverse, Nat.add_comm]

/-- A value of one token takes the room of that token. -/
theorem value_of_leaf {v : Json} {chars : List Char}
    (h : ∀ done, valueOnto done v = chars.reverseAux done) : r.value v = r.size chars := by
  rw [value, h, size_reverseAux, size_nil, Nat.zero_add]

theorem size_of_leaf {v : Json} {chars : List Char}
    (h : ∀ done, valueOnto done v = chars.reverseAux done) (done : List Char) :
    r.size (valueOnto done v) = r.size done + r.value v := by
  rw [h, size_reverseAux, r.value_of_leaf h]

theorem of_comma : r.of ',' = 1 := r.ascii ',' (by decide)

mutual

/-- **A value takes the same room behind any text.** -/
theorem size_valueOnto (done : List Char) :
    (v : Json) → r.size (valueOnto done v) = r.size done + r.value v
  | .null => r.size_of_leaf (fun _ => rfl) done
  | .bool true => r.size_of_leaf (fun _ => rfl) done
  | .bool false => r.size_of_leaf (fun _ => rfl) done
  | .number _ => r.size_of_leaf (fun _ => rfl) done
  | .string _ => r.size_of_leaf (fun _ => rfl) done
  | .array [] => by
    rw [value, valueOnto, valueOnto, itemsOnto, itemsOnto]
    simp only [size_cons, size_nil]
    omega
  | .array (v :: rest) => by
    rw [value, valueOnto, valueOnto, itemsOnto, itemsOnto, if_pos rfl, if_pos rfl]
    rw [size_cons, size_cons, size_itemsOnto _ rest, size_itemsOnto _ rest, size_valueOnto _ v,
      size_valueOnto _ v]
    simp only [size_cons, size_nil]
    omega
  | .object [] => by
    rw [value, valueOnto, valueOnto, membersOnto, membersOnto]
    simp only [size_cons, size_nil]
    omega
  | .object (m :: rest) => by
    rw [value, valueOnto, valueOnto, membersOnto, membersOnto, if_pos rfl, if_pos rfl]
    rw [size_cons, size_cons, size_membersOnto _ rest, size_membersOnto _ rest, size_memberOnto _ m,
      size_memberOnto _ m]
    simp only [size_cons, size_nil]
    omega

theorem size_itemsOnto (done : List Char) :
    (items : List Json) → r.size (itemsOnto false done items) = r.size done + r.items items
  | [] => rfl
  | v :: rest => by
    rw [itemsOnto, if_neg (by decide), size_itemsOnto _ rest, size_valueOnto _ v, size_cons, of_comma,
      items_cons]
    omega

theorem size_membersOnto (done : List Char) :
    (members : List (String × Json)) →
      r.size (membersOnto false done members) = r.size done + r.members members
  | [] => rfl
  | m :: rest => by
    rw [membersOnto, if_neg (by decide), size_membersOnto _ rest, size_memberOnto _ m, size_cons,
      of_comma, members_cons]
    omega

theorem size_memberOnto (done : List Char) :
    (m : String × Json) → r.size (memberOnto done m) = r.size done + r.member m
  | (key, v) => by
    rw [member, memberOnto, memberOnto, size_valueOnto _ v, size_valueOnto _ v]
    simp only [size_cons, size_nil, size_reverseAux]
    omega

end

theorem member_eq (key : String) (v : Json) :
    r.member (key, v) = r.size (quote key) + 1 + r.value v := by
  rw [member, memberOnto, size_valueOnto, size_cons, size_reverseAux, size_nil,
    r.ascii ':' (by decide)]
  omega

/-- Of the commas there is one less than there are items, and brackets stand around all. -/
theorem value_array (items : List Json) : r.value (.array items) = max 1 (r.items items) + 1 := by
  have hopen := r.ascii '[' (by decide)
  have hclose := r.ascii ']' (by decide)
  rw [value, valueOnto, size_cons, hclose]
  rcases items with _ | ⟨v, rest⟩
  · rw [itemsOnto, size_cons, size_nil, hopen]
    rfl
  · rw [itemsOnto, if_pos rfl, size_itemsOnto, size_valueOnto, size_cons, size_nil, hopen, items_cons]
    omega

theorem value_object (members : List (String × Json)) :
    r.value (.object members) = max 1 (r.members members) + 1 := by
  have hopen := r.ascii '{' (by decide)
  have hclose := r.ascii '}' (by decide)
  rw [value, valueOnto, size_cons, hclose]
  rcases members with _ | ⟨m, rest⟩
  · rw [membersOnto, size_cons, size_nil, hopen]
    rfl
  · rw [membersOnto, if_pos rfl, size_membersOnto, size_memberOnto, size_cons, size_nil, hopen,
      members_cons]
    omega

theorem size_text (v : Json) : r.size v.text.toList = r.value v := by
  rw [text, String.toList_ofList, size_reverse, value]

/-- Of a run of members with one key the others are left out. -/
theorem lastOfRuns_sublist (members : List (String × Json)) :
    (lastOfRuns members).Sublist members := by
  induction members using lastOfRuns.induct with
  | case1 => exact .slnil
  | case2 m => exact .refl _
  | case3 m n rest hkey ih =>
    rw [lastOfRuns, if_pos hkey]
    exact ih.cons m
  | case4 m n rest hkey ih =>
    rw [lastOfRuns, if_neg hkey]
    exact ih.cons_cons m

/-- **Members in order take no more room** than in the order in which they came. -/
theorem members_sortMembers (members : List (String × Json)) :
    r.members (sortMembers members) ≤ r.members members := by
  have hsublist := lastOfRuns_sublist (members.mergeSort fun m n => m.1 ≤ n.1)
  have hperm := List.mergeSort_perm members fun m n => m.1 ≤ n.1
  calc r.members (sortMembers members)
      ≤ r.members (members.mergeSort fun m n => m.1 ≤ n.1) :=
        (hsublist.map _).sum_le_sum fun _ _ => Nat.zero_le _
    _ = r.members members := (hperm.map _).sum_nat

/-! ## What the parser has taken -/

/-- The room that the parts of an open array or object take, each with a comma. -/
def parts : Level → Nat
  | .array items => r.items items
  | .object members _ => r.members members

/-- The room that the key takes that is waiting for its value. -/
def key : Level → Nat
  | .array _ => 0
  | .object _ key => r.size (quote key) + 1

/-- The room that open arrays and objects take which wait for a value, with what stands in front of the
value. -/
def waiting : List Level → Nat
  | [] => 0
  | level :: outer => 1 + r.parts level + r.key level + waiting outer

/-- The room that the tokens took which the parser has taken. -/
def parser (p : Parser) : Nat :=
  match p.expected, p.levels with
  | .nothing v, _ => r.value v
  | .value, levels | .firstItem, levels => r.waiting levels
  | .firstKey, level :: outer | .key, level :: outer => 1 + r.parts level + r.waiting outer
  | .colon, level :: outer => 1 + r.parts level + (r.key level - 1) + r.waiting outer
  | .more, level :: outer => max 1 (r.parts level) + r.waiting outer
  | _, [] => 0

section

variable (level : Level) (levels outer : List Level)

@[simp] theorem waiting_nil : r.waiting [] = 0 := rfl

@[simp] theorem waiting_cons :
    r.waiting (level :: outer) = 1 + r.parts level + r.key level + r.waiting outer := rfl

@[simp] theorem parser_nothing (v : Json) :
    r.parser { levels, expected := .nothing v } = r.value v := rfl

@[simp] theorem parser_value : r.parser { levels, expected := .value } = r.waiting levels := rfl

@[simp] theorem parser_firstItem :
    r.parser { levels, expected := .firstItem } = r.waiting levels := rfl

@[simp] theorem parser_firstKey : r.parser { levels := level :: outer, expected := .firstKey }
    = 1 + r.parts level + r.waiting outer := rfl

@[simp] theorem parser_key : r.parser { levels := level :: outer, expected := .key }
    = 1 + r.parts level + r.waiting outer := rfl

@[simp] theorem parser_colon : r.parser { levels := level :: outer, expected := .colon }
    = 1 + r.parts level + (r.key level - 1) + r.waiting outer := rfl

@[simp] theorem parser_more : r.parser { levels := level :: outer, expected := .more }
    = max 1 (r.parts level) + r.waiting outer := rfl

end

variable {p q : Parser} {t : Token} {v : Json}

/-- A value takes its place in what is open. -/
theorem parser_complete (levels : List Level) (v : Json) :
    r.parser (Parser.complete levels v) = r.waiting levels + r.value v := by
  rcases levels with _ | ⟨items | ⟨members, key⟩, outer⟩
  · rw [Parser.complete, parser_nothing, waiting_nil, Nat.zero_add]
  · rw [Parser.complete, parser_more, waiting_cons, parts, parts, Room.key, items_cons]
    omega
  · rw [Parser.complete, parser_more, waiting_cons, parts, parts, Room.key, members_cons, member_eq]
    omega

theorem parser_of_takesValue (h : p.takesValue = true) : r.parser p = r.waiting p.levels := by
  rcases p with ⟨levels, expected⟩
  cases expected
  case value => rfl
  case firstItem => rfl
  all_goals cases h

/-- A value of one token pays for its text, which is that token's. -/
theorem parser_scalar? (hv : r.value v = r.size t.chars) (h : p.scalar? v = some q) :
    r.parser q = r.parser p + r.size t.chars := by
  rw [Parser.scalar?] at h
  split at h
  · rename_i htakes
    cases h
    rw [parser_complete, r.parser_of_takesValue htakes, hv]
  · cases h

/-- A bracket pays for what it opens. -/
theorem parser_open? {level : Level} {expected : Expected} (h : p.open? level expected = some q)
    (hopened : r.parser { levels := level :: p.levels, expected } = 1 + r.waiting p.levels) :
    r.parser q = r.parser p + 1 := by
  rw [Parser.open?] at h
  split at h
  · rename_i htakes
    cases h
    rw [hopened, r.parser_of_takesValue htakes.1, Nat.add_comm]
  · cases h

/-- A key waits for its colon. -/
theorem parser_colon_of_key {members : List (String × Json)} {key s : String} {outer : List Level}
    {expected : Expected} (h : expected = .firstKey ∨ expected = .key) :
    r.parser { levels := .object members s :: outer, expected := .colon }
      = r.parser { levels := .object members key :: outer, expected } + r.size (quote s) := by
  have hkey : r.parser { levels := .object members key :: outer, expected }
      = 1 + r.members members + r.waiting outer := by
    rcases h with rfl | rfl <;> rfl
  rw [hkey, parser_colon, parts, Room.key]
  omega

/-- A closing bracket pays for itself. There is always room for a comma that no part follows. -/
theorem parser_close {level : Level} {outer : List Level} {expected : Expected}
    (h : expected = .more ∨ expected = .firstItem ∨ expected = .firstKey)
    (hv : r.value v ≤ max 1 (r.parts level) + 1) :
    r.parser (Parser.complete outer v) ≤ r.parser { levels := level :: outer, expected } + 1 := by
  rw [parser_complete]
  rcases h with rfl | rfl | rfl
  · rw [parser_more]
    omega
  · rw [parser_firstItem, waiting_cons]
    omega
  · rw [parser_firstKey]
    omega

theorem value_array_reverse (items : List Json) :
    r.value (.array items.reverse) = max 1 (r.items items) + 1 := by
  rw [value_array, Room.items, List.map_reverse, List.sum_reverse, Room.items]

theorem value_object_sortMembers_reverse (members : List (String × Json)) :
    r.value (.object (sortMembers members.reverse)) ≤ max 1 (r.members members) + 1 := by
  have hsort := r.members_sortMembers members.reverse
  have hreverse : r.members members.reverse = r.members members := by
    rw [Room.members, List.map_reverse, List.sum_reverse, Room.members]
  rw [value_object]
  omega

/-- **Each token pays for what the parser makes of it.** -/
theorem parser_step? (h : p.step? t = some q) : r.parser q ≤ r.parser p + r.size t.chars := by
  rcases p with ⟨levels, expected⟩
  have hsingle {c : Char} (hc : c.toNat < 0x80) : r.size [c] = 1 := by
    rw [size_cons, r.ascii c hc, size_nil]
  cases t with
  | null => exact Nat.le_of_eq (r.parser_scalar? (r.value_of_leaf fun _ => rfl) h)
  | bool v =>
    refine Nat.le_of_eq (r.parser_scalar? ?_ h)
    cases v <;> exact r.value_of_leaf fun _ => rfl
  | number n => exact Nat.le_of_eq (r.parser_scalar? (r.value_of_leaf fun _ => rfl) h)
  | string s =>
    rw [Parser.step?] at h
    dsimp only at h
    split at h
    · cases h
      exact Nat.le_of_eq (r.parser_colon_of_key (.inl rfl))
    · cases h
      exact Nat.le_of_eq (r.parser_colon_of_key (.inr rfl))
    · exact Nat.le_of_eq (r.parser_scalar? (r.value_of_leaf fun _ => rfl) h)
  | openArray =>
    rw [Token.chars, hsingle (by decide)]
    exact Nat.le_of_eq (r.parser_open? h rfl)
  | openObject =>
    rw [Token.chars, hsingle (by decide)]
    exact Nat.le_of_eq (r.parser_open? h rfl)
  | colon =>
    rw [Token.chars, hsingle (by decide)]
    rw [Parser.step?] at h
    dsimp only at h
    split at h
    · cases h
      rcases levels with _ | ⟨items | ⟨members, key⟩, outer⟩
      · exact Nat.zero_le _
      · exact Nat.le_succ _
      · rw [parser_value, waiting_cons, parser_colon, parts, Room.key]
        omega
    · cases h
  | comma =>
    rw [Token.chars, hsingle (by decide)]
    rw [Parser.step?] at h
    dsimp only at h
    split at h
    · cases h
      rw [parser_value, waiting_cons, parser_more, Room.key]
      omega
    · cases h
      rw [parser_key, parser_more]
      omega
    · cases h
  | closeArray =>
    rw [Token.chars, hsingle (by decide)]
    rw [Parser.step?] at h
    dsimp only at h
    split at h
    · cases h
      exact r.parser_close (.inl rfl) (Nat.le_of_eq (r.value_array_reverse _))
    · cases h
      exact r.parser_close (.inr (.inl rfl)) (Nat.le_of_eq (r.value_array_reverse _))
    · cases h
  | closeObject =>
    rw [Token.chars, hsingle (by decide)]
    rw [Parser.step?] at h
    dsimp only at h
    split at h
    · cases h
      exact r.parser_close (.inl rfl) (r.value_object_sortMembers_reverse _)
    · cases h
      exact r.parser_close (.inr (.inr rfl)) (r.value_object_sortMembers_reverse _)
    · cases h

/-- **The tokens pay for the document** that was read from them. -/
theorem value_of_foldlM {ts : List Token} (h : ts.foldlM Parser.step? p = some q)
    (hv : q.result? = some v) : r.value v ≤ r.parser p + r.tokens ts := by
  induction ts generalizing p with
  | nil =>
    cases h
    rcases q with ⟨levels, expected⟩
    cases expected
    case nothing =>
      cases hv
      exact Nat.le_add_right _ _
    all_goals cases hv
  | cons t ts ih =>
    rw [List.foldlM_cons] at h
    obtain ⟨next, hnext, hrest⟩ := Option.bind_eq_some_iff.1 h
    have hstep := r.parser_step? hnext
    have hvalue := ih hrest
    rw [tokens_cons]
    omega

/-- **A document takes no more room in its compact text than in the text that it was read from**, but
for what the numbers are printed longer than they are spelled. -/
theorem size_text_of_ofText? {text : String} (h : ofText? text = some v) :
    r.size v.text.toList + spelled (numerals text.toList)
      ≤ r.size text.toList + printed (numerals text.toList) := by
  obtain ⟨ts, htokens, h⟩ := Option.bind_eq_some_iff.1 h
  obtain ⟨q, hfold, hv⟩ := Option.bind_eq_some_iff.1 h
  have hlexer := r.size_of_tokens? htokens
  have hparser := r.value_of_foldlM hfold hv
  have hstart : r.parser {} = 0 := rfl
  rw [size_text]
  omega

end Room

/-- What the text of a document spells as numbers are numbers. -/
theorem exists_of_mem_numerals {text : String} {v : Json} {chars : List Char}
    (h : ofText? text = some v) (hmem : chars ∈ numerals text.toList) :
    ∃ n, Number.ofChars? chars = some n := by
  obtain ⟨ts, htokens, -⟩ := Option.bind_eq_some_iff.1 h
  obtain ⟨last, hfold, hfinish⟩ := Option.bind_eq_some_iff.1 htokens
  obtain ⟨y, hlast, -⟩ := Option.bind_eq_some_iff.1 hfinish
  exact Lexer.exists_of_mem_numerals hfold hlast hmem

end PacketStream.Json
