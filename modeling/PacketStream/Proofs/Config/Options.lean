import Mathlib
import PacketStream.Proofs.Config.Setting
import PacketStream.Proofs.Frame.Recovery

/-!
# What options say

The lines of an option file are taken one after the other, and each may change the configuration that
the lines before it have made. The result can be told without that order: `Setting.Says` says of each
setting alone what the lines make of it, by the last line that assigns to its key.

`of_assignAll_of_isLast` is the run for one setting, and `value_assignAll_of_edits` says which edits of
the lines make no difference. `parse_describes` is the result: a configuration is what the lines say of
its settings, and is given where its limits can be used. No frame that such limits admit is too long for
its prefix.
-/

namespace PacketStream.Config

variable {c d : Config} {n : Nat}

/-! ## The lines one after the other -/

variable {lines lines' : List (List Char)} {s : Setting}

/-- A line changes the configuration by what it assigns, or not at all. -/
theorem value_assignAll_cons (c : Config) (line : List Char) (lines : List (List Char)) :
    (assignAll c (line :: lines)).value =
      match assignment? line with
      | none => (assignAll c lines).value
      | some (key, value) => (assignAll (c.assign key value).value lines).value := by
  rw [assignAll]
  rcases assignment? line with _ | ⟨key, value⟩ <;> rfl

theorem value_assignAll_append (c : Config) (front back : List (List Char)) :
    (assignAll c (front ++ back)).value = (assignAll (assignAll c front).value back).value := by
  induction front generalizing c with
  | nil => rfl
  | cons line front ih =>
    rw [List.cons_append, value_assignAll_cons, value_assignAll_cons]
    split
    · exact ih c
    · exact ih _

namespace Setting

/-- No line assigns to the setting. -/
def IsUnset (s : Setting) (lines : List (List Char)) : Prop :=
  ∀ line ∈ lines, ∀ value, ¬ Assigns line s.key value

/-- The last of the lines that assign to the setting assigns this value. -/
def IsLast (s : Setting) (lines : List (List Char)) (value : List Char) : Prop :=
  ∃ front line back, lines = front ++ line :: back ∧ Assigns line s.key value ∧ s.IsUnset back

/-- **What lines say of a setting**: what the last value assigned to it makes of it, or the default
where none is assigned. -/
def Says (s : Setting) (lines : List (List Char)) (n : Nat) : Prop :=
  (∀ value, s.IsLast lines value → s.Takes value n) ∧ (s.IsUnset lines → n = s.default)

/-- There is a last assignment where there is any. -/
theorem isUnset_or_exists_isLast (s : Setting) (lines : List (List Char)) :
    s.IsUnset lines ∨ ∃ value, s.IsLast lines value := by
  induction lines with
  | nil => exact .inl nofun
  | cons line lines ih =>
    rcases ih with hunset | ⟨value, front, last, back, rfl, hlast⟩
    · by_cases hline : ∃ value, Assigns line s.key value
      · obtain ⟨value, hvalue⟩ := hline
        exact .inr ⟨value, [], line, lines, rfl, hvalue, hunset⟩
      · refine .inl (List.forall_mem_cons.2 ⟨?_, hunset⟩)
        exact fun value hvalue => hline ⟨value, hvalue⟩
    · exact .inr ⟨value, line :: front, last, back, rfl, hlast⟩

theorem of_assignAll_of_isUnset (h : s.IsUnset lines) (c : Config) :
    s.of (assignAll c lines).value = s.of c := by
  induction lines generalizing c with
  | nil => rfl
  | cons line lines ih =>
    obtain ⟨hline, hlines⟩ := List.forall_mem_cons.1 h
    rw [value_assignAll_cons]
    rcases hassigns : assignment? line with _ | ⟨key, value⟩
    · exact ih hlines c
    · have hkey : key ≠ s.key := by
        rintro rfl
        exact hline value (assignment?_eq_some_iff.1 hassigns)
      dsimp only
      rw [ih hlines, of_assign, if_neg hkey]

/-- **The last assignment to a setting counts**, whatever was assigned before. -/
theorem of_assignAll_of_isLast {value : List Char} (h : s.IsLast lines value) (c : Config) :
    s.of (assignAll c lines).value = (number? s.bound value).getD s.default := by
  obtain ⟨front, line, back, rfl, hline, hback⟩ := h
  rw [value_assignAll_append, value_assignAll_cons, assignment?_eq_some_iff.2 hline]
  dsimp only
  rw [of_assignAll_of_isUnset hback, of_assign, if_pos rfl]

/-- What the lines say is what comes out, and they say nothing else. -/
theorem says_iff : s.Says lines n ↔ n = s.of (assignAll Config.default lines).value := by
  rcases s.isUnset_or_exists_isLast lines with hunset | ⟨value, hlast⟩
  · rw [of_assignAll_of_isUnset hunset, of_default]
    refine ⟨fun h => h.2 hunset, fun hn => ⟨?_, fun _ => hn⟩⟩
    rintro value ⟨front, line, back, rfl, hline, -⟩
    exact absurd hline (hunset line (by simp) value)
  · constructor
    · intro h
      rw [of_assignAll_of_isLast hlast, ← takes_iff]
      exact h.1 value hlast
    · intro hn
      refine ⟨fun other hother => ?_, fun hunset => ?_⟩
      · rw [takes_iff, ← of_assignAll_of_isLast hother, hn]
      · rw [hn, of_assignAll_of_isUnset hunset, of_default]

end Setting

/-- The lines say of every setting what the configuration has for it. -/
def Describes (lines : List (List Char)) (c : Config) : Prop := ∀ s : Setting, s.Says lines (s.of c)

theorem describes_iff : Describes lines c ↔ c = (assignAll default lines).value := by
  constructor
  · exact fun h => Setting.eq_of_of_eq fun s => Setting.says_iff.1 (h s)
  · rintro rfl
    exact fun s => Setting.says_iff.2 rfl

/-! ## Edits that change nothing -/

/-- A line that sets nothing: it is blank, a comment or without a sign of equality, or its key is not
known. -/
def IsSilent (line : List Char) : Prop :=
  Text.trim line = [] ∨ (Text.trim line).head? = some '#' ∨ '=' ∉ Text.trim line ∨
    ∃ key value, Assigns line key value ∧ ∀ s : Setting, key ≠ s.key

/-- A change to one place of the lines: a silent line comes in, or two assignments to different keys
change places. -/
inductive Edit : List (List Char) → List (List Char) → Prop
  | insert {line : List Char} (silent : IsSilent line) (front back : List (List Char)) :
      Edit (front ++ back) (front ++ line :: back)
  | swap {line line' key key' value value' : List Char} (assigns : Assigns line key value)
      (assigns' : Assigns line' key' value') (ne : key ≠ key') (front back : List (List Char)) :
      Edit (front ++ line :: line' :: back) (front ++ line' :: line :: back)

theorem value_assignAll_of_isSilent {line : List Char} (h : IsSilent line) (c : Config)
    (lines : List (List Char)) : (assignAll c (line :: lines)).value = (assignAll c lines).value := by
  rw [value_assignAll_cons]
  rcases hassigns : assignment? line with _ | ⟨key, value⟩
  · rfl
  have hline := assignment?_eq_some_iff.1 hassigns
  have hkey : ∀ s : Setting, key ≠ s.key := by
    obtain ⟨before, rest, hsplit, -, hcomment, -⟩ := id hline
    rcases h with hblank | hhash | hsign | ⟨key', value', hassigns', hkey⟩
    · rw [hblank] at hsplit
      simp at hsplit
    · exact absurd hhash hcomment
    · rw [hsplit] at hsign
      simp at hsign
    · rwa [(hline.unique hassigns').1]
  have hsame : (c.assign key value).value = c :=
    Setting.eq_of_of_eq fun s => by rw [Setting.of_assign, if_neg (hkey s)]
  dsimp only
  rw [hsame]

/-- Assignments to different keys can be made in either order. -/
theorem assign_comm {key key' : List Char} (h : key ≠ key') (value value' : List Char) (c : Config) :
    ((c.assign key value).value.assign key' value').value
      = ((c.assign key' value').value.assign key value).value := by
  refine Setting.eq_of_of_eq fun s => ?_
  rw [Setting.of_assign, Setting.of_assign, Setting.of_assign, Setting.of_assign]
  by_cases hkey : key = s.key
  · rw [if_pos hkey, if_pos hkey, if_neg fun hkey' => h (hkey.trans hkey'.symm)]
  · rw [if_neg hkey, if_neg hkey]

theorem value_assignAll_of_edit (h : Edit lines lines') (c : Config) :
    (assignAll c lines).value = (assignAll c lines').value := by
  cases h with
  | insert silent front back =>
    rw [value_assignAll_append, value_assignAll_append, value_assignAll_of_isSilent silent]
  | swap assigns assigns' ne front back =>
    rw [value_assignAll_append, value_assignAll_append]
    simp only [value_assignAll_cons, assignment?_eq_some_iff.2 assigns,
      assignment?_eq_some_iff.2 assigns', assign_comm ne]

/-- **Any number of edits, there and back, changes nothing.** -/
theorem value_assignAll_of_edits (h : Relation.EqvGen Edit lines lines') (c : Config) :
    (assignAll c lines).value = (assignAll c lines').value := by
  induction h with
  | rel lines lines' edit => exact value_assignAll_of_edit edit c
  | refl lines => rfl
  | symm lines lines' _ ih => exact ih.symm
  | trans lines lines' lines'' _ _ ih ih' => exact ih.trans ih'

/-! ## Limits that can be used -/

/-- Limits that can be used: none is zero, frames keep to their prefix, and there is such a level. -/
structure Usable (c : Config) : Prop where
  textLength : 0 < c.textLength
  frameLength : 0 < c.frameLength
  prefixedLength : c.frameLength ≤ Limits.prefixedLength
  uncompressedLength : 0 < c.uncompressedLength
  level : c.level ≤ 9

theorem broken?_eq_none_iff : c.broken? = none ↔ c.Usable := by
  rw [broken?]
  constructor
  · intro h
    split at h
    · cases h
    split at h
    · cases h
    split at h
    · cases h
    split at h
    · cases h
    split at h
    · cases h
    · constructor <;> omega
  · intro h
    obtain ⟨htext, hframe, hprefixed, huncompressed, hlevel⟩ := h
    rw [if_neg (by omega), if_neg (by omega), if_neg (by omega), if_neg (by omega),
      if_neg (by omega)]

theorem validate_eq_ok_iff : c.validate = .ok () ↔ c.Usable := by
  rw [← broken?_eq_none_iff, validate]
  rcases c.broken? with _ | cause
  · exact iff_of_true rfl rfl
  · refine iff_of_false ?_ (Option.some_ne_none cause)
    intro h
    cases h

theorem outcome_parse (options : String) :
    (parse options).outcome =
      let c := (assignAll default (Text.lines options.toList)).value
      match c.broken? with
      | none => .ok c
      | some cause => .error (.config cause) := by
  have hlift (x : Traced Config) : Checked.outcome (ExceptT.lift x) = .ok x.value := rfl
  rw [parse, Checked.outcome_bind_of_ok (hlift _), Checked.outcome_bind, Checked.outcome_ofExcept,
    validate]
  dsimp only
  split
  · rename_i h
    split at h
    · cases h
    · rename_i hbroken
      rw [hbroken]
      rfl
  · rename_i h
    split at h
    · rename_i hbroken
      cases h
      rw [hbroken]
    · cases h

/-! ## Frames under such limits -/

section

variable {f : Framing}

/-- A length that is admitted is not negative, and keeps to the limit. -/
theorem fits_of_checkLength {length : Int32} (h : (f.checkLength length).outcome = .ok n) :
    0 ≤ length.toInt ∧ (n : Int) = length.toInt ∧ n ≤ f.config.frameLength := by
  rw [Framing.outcome_checkLength] at h
  split at h
  · cases h
  rename_i hnegative
  split at h
  · cases h
  rename_i hlong
  cases h
  have hnonneg : 0 ≤ length.toInt := by
    rw [Int32.lt_iff_toInt_lt, Int32.toInt_zero] at hnegative
    omega
  exact ⟨hnonneg, Int.toNat_of_nonneg hnonneg, Nat.le_of_not_lt hlong⟩

/-- A frame that is made has a length that its prefix can tell. -/
theorem fits_of_wrap (hconfig : f.config.validate = .ok ()) {body frame : List UInt8}
    (h : (f.wrap body).outcome = .ok frame) :
    ∃ length : Int32, 0 ≤ length.toInt ∧ ((f.contents body).bytes.length : Int) = length.toInt ∧
      frame = Varint.encode (f.contents body).bytes.length ++ (f.contents body).bytes := by
  obtain ⟨hlength, rfl⟩ := Framing.outcome_wrap_eq_ok.1 h
  have hprefixed := Nat.le_trans hlength (Framing.frameLength_le_of_validate hconfig)
  have hint := Limits.toInt_of_le_prefixedLength hprefixed
  rw [Framing.Contents.length_bytes]
  exact ⟨_, by rw [hint]; exact Int.natCast_nonneg _, hint.symm, rfl⟩

end

/-! ## Options -/

/-- **Options describe one configuration, and it is given if and only if it can be used.** What the
lines say of each setting is said by the last line that assigns to its key, and by no other line: the
number that its value denotes, or the default where that value denotes none, as where no line assigns to
it. So there is one configuration that they describe. It comes out if its limits can be used, which is
what validation checks, and otherwise a fault of the configuration does. Two texts have the same outcome
if the lines of one are those of the other after any edits: lines that set nothing come in or go, and
assignments to different keys change places. And under limits that come out, a frame length that is
admitted from a peer, and the length of every frame that is made, is a signed number of 32 bits that is
not negative. -/
theorem parse_describes (options : String) :
    (∃ c, Describes (Text.lines options.toList) c ∧
      (∀ d, Describes (Text.lines options.toList) d → d = c) ∧
      (c.Usable ↔ c.validate = .ok ()) ∧
      (c.Usable → (parse options).outcome = .ok c) ∧
      (¬ c.Usable → ∃ cause, (parse options).outcome = .error (.config cause))) ∧
    (∀ other : String,
      Relation.EqvGen Edit (Text.lines options.toList) (Text.lines other.toList) →
      (parse other).outcome = (parse options).outcome) ∧
    ∀ c, (parse options).outcome = .ok c → c.Usable ∧ ∀ f : Framing, f.config = c →
      (∀ (length : Int32) (n : Nat), (f.checkLength length).outcome = .ok n →
        0 ≤ length.toInt ∧ (n : Int) = length.toInt ∧ n ≤ c.frameLength) ∧
      ∀ body frame, (f.wrap body).outcome = .ok frame →
        ∃ length : Int32, 0 ≤ length.toInt ∧
          ((f.contents body).bytes.length : Int) = length.toInt ∧
          frame = Varint.encode (f.contents body).bytes.length ++ (f.contents body).bytes := by
  have hparse := outcome_parse options
  dsimp only at hparse
  refine ⟨⟨_, describes_iff.2 rfl, fun _ => describes_iff.1, validate_eq_ok_iff.symm, ?_, ?_⟩,
    ?_, ?_⟩
  · intro husable
    rw [hparse, broken?_eq_none_iff.2 husable]
  · intro hnot
    rw [← broken?_eq_none_iff] at hnot
    obtain ⟨cause, hcause⟩ := Option.ne_none_iff_exists'.1 hnot
    rw [hcause] at hparse
    exact ⟨cause, hparse⟩
  · intro other hedits
    rw [outcome_parse, outcome_parse, value_assignAll_of_edits hedits]
  · intro c hc
    have husable : c.Usable := by
      rw [hparse] at hc
      split at hc
      · rename_i hnone
        cases hc
        exact broken?_eq_none_iff.1 hnone
      · cases hc
    refine ⟨husable, ?_⟩
    rintro f rfl
    exact ⟨fun _ _ => fits_of_checkLength,
      fun _ _ => fits_of_wrap (validate_eq_ok_iff.2 husable)⟩

/-- The last value for the frame length is no number, so the default counts and not the number assigned
first. Behind a change of order and with a comment more the lines say the same. -/
theorem parse_describes_forgotten :
    let options := "max_frame_length=9\n compression_level = +3 \r\nmax_frame_length = a=9\n"
    let edited := "max_frame_length=9\nmax_frame_length = a=9\n#level=1\n compression_level = +3 "
    let c : Config := { level := 3 }
    Relation.EqvGen Edit (Text.lines options.toList) (Text.lines edited.toList) ∧
      (parse options).outcome = .ok c ∧ (parse edited).outcome = .ok c ∧ c.Usable ∧
      ∃ frame, (Framing.wrap { config := c } [5, 6]).outcome = .ok frame ∧
        frame = Varint.encode 2 ++ [5, 6] := by
  intro options edited c
  have hlines : Text.lines options.toList = ["max_frame_length=9".toList,
      " compression_level = +3 ".toList, "max_frame_length = a=9".toList] := by decide +kernel
  have hedited : Text.lines edited.toList = ["max_frame_length=9".toList,
      "max_frame_length = a=9".toList, "#level=1".toList, " compression_level = +3 ".toList] := by
    decide +kernel
  have hlevel : Assigns " compression_level = +3 ".toList "compression_level".toList "+3".toList :=
    assignment?_eq_some_iff.1 (by cbv)
  have hframe : Assigns "max_frame_length = a=9".toList "max_frame_length".toList "a=9".toList :=
    assignment?_eq_some_iff.1 (by cbv)
  have hsilent : IsSilent "#level=1".toList := .inr (.inl (by cbv))
  have hedits : Relation.EqvGen Edit (Text.lines options.toList) (Text.lines edited.toList) := by
    rw [hlines, hedited]
    have hswap := Edit.swap hlevel hframe (by decide) ["max_frame_length=9".toList] []
    have hinsert := Edit.insert hsilent
      ["max_frame_length=9".toList, "max_frame_length = a=9".toList] [" compression_level = +3 ".toList]
    exact .trans _ _ _ (.rel _ _ hswap) (.rel _ _ hinsert)
  have hparsed : (parse options).outcome = .ok c := by decide +kernel
  obtain ⟨-, hsame, husable⟩ := parse_describes options
  obtain ⟨hc, hfits⟩ := husable c hparsed
  have hwrapped : (Framing.wrap { config := c } [5, 6]).outcome = .ok [2, 5, 6] := by cbv
  obtain ⟨-, -, -, hframed⟩ := (hfits { config := c } rfl).2 _ _ hwrapped
  exact ⟨hedits, hparsed, (hsame edited hedits).trans hparsed, hc, _, hwrapped, hframed⟩

end PacketStream.Config
