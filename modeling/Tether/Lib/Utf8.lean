/-
# Tether.Lib.Utf8 — Go strings that are text

`encode` is the text of a list of characters.  The functions of package `strings` that
decode do on such a text what the same functions on characters do: `ToUpper` is a map
(`toUpper_encode`), `TrimSpace` drops blanks at both ends (`trimSpace_encode`).

Searching works on bytes.  A byte below 128 is a character of its own in any text, so
an ASCII separator that is found among the bytes is found among the characters
(`encode_eq_append`), and cutting there cuts no character.

In a string that is no text only bytes from 128 on are replaced (`runes_cons`), and a
string without a replacement character is the text of its characters (`encode_runes`).
-/
import Tether.Lib.GoString

namespace Tether.Lib.GoString

set_option autoImplicit false

/-- The text of some characters. -/
def encode (cs : List Char) : GoString := cs.flatMap String.utf8EncodeChar

theorem ofString_eq_encode (s : String) : ofString s = encode s.toList := rfl

@[simp] theorem encode_nil : encode [] = [] := rfl

theorem encode_cons (c : Char) (cs : List Char) :
    encode (c :: cs) = String.utf8EncodeChar c ++ encode cs := List.flatMap_cons

theorem encode_append (cs cs' : List Char) : encode (cs ++ cs') = encode cs ++ encode cs' :=
  List.flatMap_append

theorem length_le_encode (cs : List Char) : cs.length ≤ (encode cs).length := by
  induction cs with
  | nil => exact Nat.le_refl 0
  | cons c cs ih =>
      have := c.utf8Size_pos
      rw [encode_cons, List.length_append, String.length_utf8EncodeChar, List.length_cons]
      omega

theorem toList_loop (bytes : ByteArray) (i : Nat) (done : List UInt8) :
    ByteArray.toList.loop bytes i done = done.reverse ++ bytes.data.toList.drop i := by
  fun_induction ByteArray.toList.loop bytes i done with
  | case1 i done inside ih =>
      have within : i < bytes.data.toList.length := inside
      have here : bytes.get! i = bytes.data.toList[i] := getElem!_pos bytes.data i inside
      rw [ih, List.drop_eq_getElem_cons within, here]
      simp
  | case2 i done outside =>
      rw [List.drop_eq_nil_of_le (Nat.le_of_not_lt outside), List.append_nil]

theorem toList_toByteArray (s : String) : s.toByteArray.toList = ofString s := by
  rw [ByteArray.toList, toList_loop, ← String.utf8Encode_toList]
  exact List.toList_data_toByteArray

/-! ## One character -/

theorem utf8EncodeChar_ascii {c : Char} (ascii : c.toNat < 128) :
    String.utf8EncodeChar c = [UInt8.ofNat c.toNat] := by
  have small : c.val.toNat ≤ 127 := Nat.le_of_lt_succ ascii
  rw [String.utf8EncodeChar.eq_1, if_pos small]
  rfl

theorem exists_ascii {b : UInt8} (ascii : b.toNat < 128) :
    ∃ c : Char, c.toNat < 128 ∧ String.utf8EncodeChar c = [b] := by
  have valid : b.toNat.isValidChar := Or.inl (by omega)
  have value : (Char.ofNatAux b.toNat valid).toNat = b.toNat := rfl
  refine ⟨Char.ofNatAux b.toNat valid, by omega, ?_⟩
  rw [utf8EncodeChar_ascii (by omega), value, UInt8.ofNat_toNat]

theorem le_of_mem_utf8EncodeChar {c : Char} (wide : 128 ≤ c.toNat) :
    ∀ b ∈ String.utf8EncodeChar c, 128 ≤ b.toNat := by
  have bytes (n : Nat) (low : 128 ≤ n) (high : n < 256) : 128 ≤ (UInt8.ofNat n).toNat := by
    rw [UInt8.toNat_ofNat', Nat.mod_eq_of_lt high]
    exact low
  have value : ¬ c.val.toNat ≤ 127 := Nat.not_le_of_lt wide
  rw [String.utf8EncodeChar.eq_1, if_neg value]
  intro b member
  split_ifs at member <;>
    simp only [List.mem_cons, List.not_mem_nil, or_false] at member
  · rcases member with rfl | rfl <;> exact bytes _ (by omega) (by omega)
  · rcases member with rfl | rfl | rfl <;> exact bytes _ (by omega) (by omega)
  · rcases member with rfl | rfl | rfl | rfl <;> exact bytes _ (by omega) (by omega)

theorem utf8EncodeChar_ne_nil (c : Char) : String.utf8EncodeChar c ≠ [] := by
  intro empty
  have size := String.length_utf8EncodeChar c
  rw [empty] at size
  exact absurd size (Nat.ne_of_lt c.utf8Size_pos)

/-- An ASCII byte of a character is the character. -/
theorem eq_of_ascii_mem {c : Char} {b : UInt8} (member : b ∈ String.utf8EncodeChar c)
    (ascii : b.toNat < 128) : c.toNat < 128 ∧ b = UInt8.ofNat c.toNat := by
  rcases Nat.lt_or_ge c.toNat 128 with small | wide
  · rw [utf8EncodeChar_ascii small] at member
    exact ⟨small, List.mem_singleton.1 member⟩
  · exact absurd ascii (Nat.not_lt_of_le (le_of_mem_utf8EncodeChar wide b member))

theorem ascii_inj {c c' : Char} (ascii : c.toNat < 128) (ascii' : c'.toNat < 128)
    (same : UInt8.ofNat c.toNat = UInt8.ofNat c'.toNat) : c = c' := by
  have numbers := congrArg UInt8.toNat same
  rw [UInt8.toNat_ofNat', UInt8.toNat_ofNat', Nat.mod_eq_of_lt (by omega),
    Nat.mod_eq_of_lt (by omega)] at numbers
  exact Char.toNat_inj.1 numbers

/-- Bytes below 128 are a text. -/
theorem exists_encode_of_ascii {s : GoString} (ascii : ∀ b ∈ s, b.toNat < 128) :
    ∃ cs, encode cs = s ∧ ∀ c ∈ cs, c.toNat < 128 := by
  induction s with
  | nil => exact ⟨[], rfl, fun _ member => absurd member List.not_mem_nil⟩
  | cons b s ih =>
      rw [List.forall_mem_cons] at ascii
      obtain ⟨c, small, byte⟩ := exists_ascii ascii.1
      obtain ⟨cs, rfl, all⟩ := ih ascii.2
      exact ⟨c :: cs, by rw [encode_cons, byte]; rfl, List.forall_mem_cons.2 ⟨small, all⟩⟩

/-! ## Decoding -/

theorem runesFrom_eq_drop (skip : Nat) (s : GoString) : runesFrom skip s = runes (s.drop skip) := by
  induction s generalizing skip with
  | nil => cases skip <;> rfl
  | cons b s ih =>
      cases skip with
      | zero => rfl
      | succ skip => exact ih skip

theorem runes_utf8EncodeChar_append (c : Char) (s : GoString) :
    runes (String.utf8EncodeChar c ++ s) = (c, c.utf8Size) :: runes s := by
  have size := String.length_utf8EncodeChar c
  have positive := c.utf8Size_pos
  have decoded :
      ((String.utf8EncodeChar c ++ s).take 4).toByteArray.utf8DecodeChar? 0 = some c := by
    have small : (String.utf8EncodeChar c).length ≤ 4 := size ▸ c.utf8Size_le_four
    rw [List.take_append, List.take_of_length_le small, List.toByteArray_append]
    exact ByteArray.utf8DecodeChar?_utf8EncodeChar_append
  cases bytes : String.utf8EncodeChar c with
  | nil => exact absurd bytes (utf8EncodeChar_ne_nil c)
  | cons b rest =>
      have length : rest.length = c.utf8Size - 1 := by
        rw [bytes, List.length_cons] at size
        omega
      rw [bytes, List.cons_append] at decoded
      rw [List.cons_append, runes, runesFrom, decoded]
      dsimp only
      rw [runesFrom_eq_drop, ← length, List.drop_left]

theorem runes_encode_append (cs : List Char) (s : GoString) :
    runes (encode cs ++ s) = cs.map (fun c => (c, c.utf8Size)) ++ runes s := by
  induction cs with
  | nil => rfl
  | cons c cs ih =>
      rw [encode_cons, List.append_assoc, runes_utf8EncodeChar_append, ih]
      rfl

theorem runes_encode (cs : List Char) : runes (encode cs) = cs.map fun c => (c, c.utf8Size) := by
  have whole := runes_encode_append cs []
  rwa [List.append_nil, show runes [] = [] from rfl, List.append_nil] at whole

theorem map_fst_runes_encode (cs : List Char) : (runes (encode cs)).map Prod.fst = cs := by
  rw [runes_encode, List.map_map]
  exact List.map_id' cs

theorem encode_inj {cs cs' : List Char} (same : encode cs = encode cs') : cs = cs' := by
  rw [← map_fst_runes_encode cs, same, map_fst_runes_encode]

/-- What the first character of a string is: one of a text, or a byte that starts none. -/
theorem runes_cons (b : UInt8) (s : GoString) :
    (∃ c rest, b :: s = String.utf8EncodeChar c ++ rest ∧
        runes (b :: s) = (c, c.utf8Size) :: runes rest) ∨
      128 ≤ b.toNat ∧ runes (b :: s) = (runeError, 1) :: runes s := by
  by_cases ascii : b.toNat < 128
  · -- an ASCII byte decodes
    left
    obtain ⟨c, -, byte⟩ := exists_ascii ascii
    have whole := runes_utf8EncodeChar_append c s
    rw [byte] at whole
    exact ⟨c, s, byte ▸ rfl, whole⟩
  · cases decoded : ((b :: s).take 4).toByteArray.utf8DecodeChar? 0 with
    | none =>
        refine Or.inr ⟨Nat.le_of_not_lt ascii, ?_⟩
        rw [runes, runesFrom, decoded]
        rfl
    | some c =>
        left
        obtain ⟨more, bytes⟩ := ByteArray.exists_of_utf8DecodeChar?_eq_some decoded
        have taken : (b :: s).take 4 = String.utf8EncodeChar c ++ more.data.toList := by
          have lists := congrArg (fun a => a.data.toList) bytes
          rwa [ByteArray.data_append, Array.toList_append, List.toList_data_toByteArray,
            List.toList_data_toByteArray] at lists
        have split : b :: s = String.utf8EncodeChar c ++ (more.data.toList ++ (b :: s).drop 4) := by
          rw [← List.append_assoc, ← taken, List.take_append_drop]
        refine ⟨c, _, split, ?_⟩
        conv_lhs => rw [split]
        exact runes_utf8EncodeChar_append c _

/-- Strings by their characters: a character of a text, or a byte that starts none. -/
theorem runes_induction {P : GoString → Prop} (nil : P [])
    (char : ∀ c s, P s → P (String.utf8EncodeChar c ++ s))
    (invalid : ∀ b s, runes (b :: s) = (runeError, 1) :: runes s → P s → P (b :: s))
    (s : GoString) : P s := by
  induction length : s.length using Nat.strong_induction_on generalizing s with
  | _ n ih =>
      subst length
      cases s with
      | nil => exact nil
      | cons b s =>
          rcases runes_cons b s with ⟨c, rest, split, -⟩ | ⟨-, decoded⟩
          · rw [split]
            have size := @List.length_append _ (String.utf8EncodeChar c) rest
            have positive := List.length_pos_of_ne_nil (utf8EncodeChar_ne_nil c)
            exact char c rest (ih rest.length (by rw [split]; omega) rest rfl)
          · exact invalid b s decoded (ih s.length (Nat.lt_succ_self _) s rfl)

/-- A string in which every character was found is their text. -/
theorem encode_runes (s : GoString) (clean : runeError ∉ s.runes.map Prod.fst) :
    encode (s.runes.map Prod.fst) = s := by
  induction s using runes_induction with
  | nil => rfl
  | char c s ih =>
      rw [runes_utf8EncodeChar_append, List.map_cons] at clean ⊢
      rw [encode_cons, ih fun member => clean (List.mem_cons_of_mem _ member)]
  | invalid b s decoded ih =>
      rw [decoded] at clean
      exact absurd List.mem_cons_self clean

/-! ## The functions that decode, on a text -/

theorem length_runes_le (s : GoString) : s.runes.length ≤ s.length := by
  induction s using runes_induction with
  | nil => exact Nat.le_refl 0
  | char c s ih =>
      have := c.utf8Size_pos
      rw [runes_utf8EncodeChar_append, List.length_cons, List.length_append,
        String.length_utf8EncodeChar]
      omega
  | invalid b s first ih =>
      rw [first, List.length_cons, List.length_cons]
      omega

theorem width_map (cs : List Char) :
    width (cs.map fun c => (c, c.utf8Size)) = (encode cs).length := by
  induction cs with
  | nil => rfl
  | cons c cs ih =>
      rw [encode_cons, List.length_append, String.length_utf8EncodeChar, ← ih]
      rfl

theorem toUpper_encode (u : Unicode) (cs : List Char) :
    toUpper u (encode cs) = encode (cs.map u.toUpper) := by
  rw [toUpper, runes_encode, List.flatMap_map, encode, List.flatMap_map]

/-- The upper-cased copy is a text, also of a string that is none. -/
theorem toUpper_eq_encode (u : Unicode) (s : GoString) :
    toUpper u s = encode (s.runes.map fun r => u.toUpper r.1) := by
  rw [toUpper, encode, List.flatMap_map]

/-- The characters that `TrimSpace` keeps. -/
def trimmed (u : Unicode) (cs : List Char) : List Char :=
  (cs.dropWhile u.isSpace).rdropWhile u.isSpace

theorem eq_blank_trimmed_blank (u : Unicode) (cs : List Char) :
    ∃ l r, cs = l ++ (trimmed u cs ++ r) ∧ (∀ c ∈ l, u.isSpace c) ∧ ∀ c ∈ r, u.isSpace c := by
  refine ⟨cs.takeWhile u.isSpace, (cs.dropWhile u.isSpace).rtakeWhile u.isSpace, ?_, ?_, ?_⟩
  · rw [trimmed, List.rdropWhile_append_rtakeWhile, List.takeWhile_append_dropWhile]
  · exact fun c member => List.mem_takeWhile_imp member
  · exact fun c member => List.mem_rtakeWhile_imp member

theorem trimmed_sublist (u : Unicode) (cs : List Char) : (trimmed u cs).Sublist cs :=
  (List.rdropWhile_prefix _ _).sublist.trans (List.dropWhile_sublist _)

/-- Text that neither starts nor ends with a blank is kept. -/
theorem trimmed_eq_self {u : Unicode} {first last : Char} {cs : List Char}
    (starts : cs.head? = some first) (ends : cs.getLast? = some last)
    (first_space : u.isSpace first = false) (last_space : u.isSpace last = false) :
    trimmed u cs = cs := by
  have kept : cs.dropWhile u.isSpace = cs := by
    cases cs with
    | nil => rfl
    | cons c cs =>
        cases starts
        exact List.dropWhile_cons_of_neg (by simp [first_space])
  rw [trimmed, kept, List.rdropWhile_eq_self_iff]
  intro nonempty
  rw [List.getLast?_eq_some_getLast nonempty] at ends
  cases ends
  simp [last_space]

theorem trimSpace_encode (u : Unicode) (cs : List Char) :
    trimSpace u (encode cs) = encode (trimmed u cs) := by
  have leading : (cs.map fun c => (c, c.utf8Size)).takeWhile (fun r => u.isSpace r.1) =
      (cs.takeWhile u.isSpace).map fun c => (c, c.utf8Size) := List.takeWhile_map ..
  have rest : (cs.map fun c => (c, c.utf8Size)).dropWhile (fun r => u.isSpace r.1) =
      (cs.dropWhile u.isSpace).map fun c => (c, c.utf8Size) := List.dropWhile_map ..
  have inner (ds : List Char) :
      (ds.map fun c => (c, c.utf8Size)).rdropWhile (fun r => u.isSpace r.1) =
        (ds.rdropWhile u.isSpace).map fun c => (c, c.utf8Size) := by
    rw [List.rdropWhile, List.rdropWhile, ← List.map_reverse, List.dropWhile_map,
      ← List.map_reverse]
    rfl
  have front : encode cs = encode (cs.takeWhile u.isSpace) ++ encode (cs.dropWhile u.isSpace) := by
    rw [← encode_append, List.takeWhile_append_dropWhile]
  have back : encode (cs.dropWhile u.isSpace) =
      encode (trimmed u cs) ++ encode ((cs.dropWhile u.isSpace).rtakeWhile u.isSpace) := by
    rw [← encode_append, trimmed, List.rdropWhile_append_rtakeWhile]
  rw [trimSpace, runes_encode, leading, rest, inner, width_map, width_map]
  rw [front, List.drop_left, back]
  exact List.take_left

theorem trimSpace_sublist (u : Unicode) (s : GoString) : (trimSpace u s).Sublist s :=
  (List.take_sublist _ _).trans (List.drop_sublist _ _)

/-! ## Searching -/

theorem eq_of_index {s sep : GoString} {i : Nat} (found : s.index sep = some i) :
    s = s.take i ++ (sep ++ s.drop (i + sep.length)) := by
  induction s generalizing i with
  | nil =>
      simp only [index] at found
      split at found
      · next empty =>
          cases found
          rw [empty]
          rfl
      · cases found
  | cons b s ih =>
      simp only [index] at found
      split at found
      · next here =>
          cases found
          obtain ⟨rest, whole⟩ := List.isPrefixOf_iff_prefix.1 here
          rw [← whole, Nat.zero_add, List.drop_left]
          rfl
      · obtain ⟨j, later, rfl⟩ := Option.map_eq_some_iff.1 found
        rw [Nat.add_right_comm, List.take_succ_cons, List.drop_succ_cons, List.cons_append,
          ← ih later]

/-- What does not hold the first byte of a separator is passed over. -/
theorem index_append_of_not_mem {b : UInt8} {s : GoString} (sep rest : GoString) (free : b ∉ s) :
    (s ++ rest).index (b :: sep) = (rest.index (b :: sep)).map (· + s.length) := by
  induction s with
  | nil => simp
  | cons d s ih =>
      have other : b ≠ d := fun same => free (same ▸ List.mem_cons_self)
      have skipped : List.isPrefixOf (b :: sep) (d :: (s ++ rest)) = false := by
        simp [List.isPrefixOf, other]
      rw [List.cons_append, index, skipped, ih fun member => free (List.mem_cons_of_mem _ member)]
      cases rest.index (b :: sep) <;> simp [Nat.add_assoc]

theorem eq_of_slice {s part : GoString} {i j : Nat} (cut : s.slice i j = some part) :
    part = (s.drop i).take (j - i) := by
  rw [slice] at cut
  split_ifs at cut with bounds
  have size : ((j : Int) - i).toNat = j - i := by omega
  rw [Int.toNat_natCast, size] at cut
  exact (Option.some.inj cut).symm

theorem slice_append (a b c : GoString) :
    (a ++ (b ++ c)).slice a.length (a.length + b.length) = some b := by
  have bounds : (0 : Int) ≤ a.length ∧ (a.length : Int) ≤ a.length + b.length ∧
      (a.length + b.length : Int) ≤ (a ++ (b ++ c)).length := by
    simp only [List.length_append]
    omega
  have size : ((a.length + b.length : Int) - a.length).toNat = b.length := by omega
  rw [slice, if_pos bounds, Int.toNat_natCast, List.drop_left, size, List.take_left]

/-- The rest of a string. -/
theorem slice_rest (a b : GoString) :
    (a ++ b).slice a.length ((a ++ b).length : Nat) = some b := by
  have whole := slice_append a b []
  rwa [List.append_nil, ← Int.natCast_add, ← List.length_append] at whole

/-- Everything but an ending. -/
theorem slice_front (a : GoString) {b : GoString} {size : Nat} (ending : b.length = size) :
    (a ++ b).slice 0 ((a ++ b).length - size) = some a := by
  have front := slice_append [] a b
  have stop : ((a ++ b).length : Int) - size = ([] : GoString).length + a.length := by
    rw [List.length_append, List.length_nil, ← ending]
    omega
  rwa [List.nil_append, ← stop] at front

/-! ## ASCII among the bytes of a text -/

theorem mem_encode {cs : List Char} {b : UInt8} :
    b ∈ encode cs ↔ ∃ c ∈ cs, b ∈ String.utf8EncodeChar c := List.mem_flatMap

theorem ascii_mem_encode {c : Char} (ascii : c.toNat < 128) {cs : List Char} :
    UInt8.ofNat c.toNat ∈ encode cs ↔ c ∈ cs := by
  rw [mem_encode]
  constructor
  · rintro ⟨d, member, byte⟩
    have small : (UInt8.ofNat c.toNat).toNat < 128 := by
      rw [UInt8.toNat_ofNat', Nat.mod_eq_of_lt (by omega)]
      exact ascii
    obtain ⟨dAscii, same⟩ := eq_of_ascii_mem byte small
    exact ascii_inj ascii dAscii same ▸ member
  · intro member
    exact ⟨c, member, utf8EncodeChar_ascii ascii ▸ List.mem_singleton_self _⟩

/-- The text after a text is a text. -/
theorem encode_eq_encode_append {cs ds : List Char} {s : GoString}
    (whole : encode cs = encode ds ++ s) : ∃ es, cs = ds ++ es ∧ encode es = s := by
  have decoded := congrArg runes whole
  rw [runes_encode, runes_encode_append] at decoded
  obtain ⟨ds', es, rfl, front, -⟩ := List.map_eq_append_iff.1 decoded
  have same : ds' = ds := by
    have firsts := congrArg (List.map Prod.fst) front
    rw [List.map_map, List.map_map] at firsts
    exact (List.map_id' ds').symm.trans (firsts.trans (List.map_id' ds))
  subst same
  rw [encode_append] at whole
  exact ⟨es, rfl, List.append_cancel_left whole⟩

theorem encode_eq_append_cons {cs : List Char} {c : Char} {p q : GoString} (ascii : c.toNat < 128)
    (whole : encode cs = p ++ UInt8.ofNat c.toNat :: q) :
    ∃ ps qs, cs = ps ++ c :: qs ∧ encode ps = p ∧ encode qs = q := by
  have small : (UInt8.ofNat c.toNat).toNat < 128 := by
    rw [UInt8.toNat_ofNat', Nat.mod_eq_of_lt (by omega)]
    exact ascii
  induction cs generalizing p with
  | nil => exact absurd whole (by simp)
  | cons d cs ih =>
      rw [encode_cons] at whole
      rcases List.append_eq_append_iff.1 whole with ⟨p', rfl, rest⟩ | ⟨m, char, rest⟩
      · obtain ⟨ps, qs, rfl, rfl, rfl⟩ := ih rest
        exact ⟨d :: ps, qs, rfl, encode_cons .., rfl⟩
      · cases m with
        | nil =>
            -- the byte is the first one after this character
            obtain ⟨ps, qs, rfl, empty, rfl⟩ := ih (p := []) rest.symm
            rw [List.append_nil] at char
            exact ⟨d :: ps, qs, rfl, by rw [encode_cons, empty, List.append_nil, char], rfl⟩
        | cons b m =>
            -- the byte is in this character, which then is it
            obtain ⟨rfl, after⟩ := List.cons.inj rest
            obtain ⟨dAscii, same⟩ := eq_of_ascii_mem (c := d) (char ▸ by simp) small
            obtain rfl := ascii_inj ascii dAscii same
            rw [utf8EncodeChar_ascii ascii] at char
            obtain ⟨rfl, rfl⟩ : p = [] ∧ m = [] := by
              cases p with
              | nil => exact ⟨rfl, (List.cons.inj char).2.symm⟩
              | cons x p => exact absurd (List.cons.inj char).2.symm (by simp)
            exact ⟨[], cs, rfl, rfl, after.symm⟩

/-- An ASCII separator among the bytes is one among the characters. -/
theorem encode_eq_append {cs sep : List Char} {p q : GoString} (nonempty : sep ≠ [])
    (ascii : ∀ c ∈ sep, c.toNat < 128) (whole : encode cs = p ++ (encode sep ++ q)) :
    ∃ ps qs, cs = ps ++ (sep ++ qs) ∧ encode ps = p ∧ encode qs = q := by
  cases sep with
  | nil => exact absurd rfl nonempty
  | cons c sep =>
      rw [encode_cons, utf8EncodeChar_ascii (ascii c List.mem_cons_self)] at whole
      obtain ⟨ps, rest, rfl, front, back⟩ :=
        encode_eq_append_cons (ascii c List.mem_cons_self) whole
      obtain ⟨qs, rfl, same⟩ := encode_eq_encode_append back
      exact ⟨ps, qs, rfl, front, same⟩

theorem encode_prefix_iff {cs ds : List Char} : encode ds <+: encode cs ↔ ds <+: cs := by
  constructor
  · rintro ⟨s, whole⟩
    obtain ⟨es, rfl, -⟩ := encode_eq_encode_append whole.symm
    exact List.prefix_append ds es
  · rintro ⟨es, rfl⟩
    exact ⟨encode es, (encode_append ds es).symm⟩

/-- An ASCII separator is searched for character by character. -/
theorem index_encode_cons {sep : List Char} (nonempty : sep ≠ [])
    (ascii : ∀ c ∈ sep, c.toNat < 128) (c : Char) (cs : List Char) :
    (encode (c :: cs)).index (encode sep) =
      if sep <+: c :: cs then some 0
      else ((encode cs).index (encode sep)).map (· + c.utf8Size) := by
  obtain ⟨first, rest, rfl⟩ := List.exists_cons_of_ne_nil nonempty
  have small := ascii first List.mem_cons_self
  have bytes : encode (first :: rest) = UInt8.ofNat first.toNat :: encode rest := by
    rw [encode_cons, utf8EncodeChar_ascii small]
    rfl
  by_cases same : c = first
  · subst same
    have whole : encode (c :: cs) = UInt8.ofNat c.toNat :: encode cs := by
      rw [encode_cons, utf8EncodeChar_ascii small]
      rfl
    have width : c.utf8Size = 1 := by
      rw [← String.length_utf8EncodeChar, utf8EncodeChar_ascii small]
      rfl
    have starts_iff : (encode (c :: rest)).isPrefixOf (UInt8.ofNat c.toNat :: encode cs) = true ↔
        c :: rest <+: c :: cs := by
      rw [List.isPrefixOf_iff_prefix, ← whole, encode_prefix_iff]
    rw [whole, index, width]
    by_cases starts : c :: rest <+: c :: cs
    · rw [if_pos starts, if_pos (starts_iff.2 starts)]
    · rw [if_neg starts, if_neg fun found => starts (starts_iff.1 found)]
  · have free : UInt8.ofNat first.toNat ∉ String.utf8EncodeChar c := by
      intro member
      have byte : (UInt8.ofNat first.toNat).toNat < 128 := by
        rw [UInt8.toNat_ofNat', Nat.mod_eq_of_lt (by omega)]
        exact small
      obtain ⟨ascii', equal⟩ := eq_of_ascii_mem member byte
      exact same (ascii_inj small ascii' equal).symm
    have elsewhere : ¬ first :: rest <+: c :: cs := fun starts =>
      same (List.cons_prefix_cons.1 starts).1.symm
    rw [if_neg elsewhere, bytes, encode_cons, index_append_of_not_mem _ _ free,
      String.length_utf8EncodeChar]

end Tether.Lib.GoString
