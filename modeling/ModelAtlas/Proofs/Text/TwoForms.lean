import Mathlib.Logic.Function.Basic
import Std.Data.ExtTreeMap
import ModelAtlas.Proofs.Files.Globs
import ModelAtlas.Text.Compact

/-!
# Two forms of one text

Whether a compact text lies in its block or is shared, the text it was made from is read back
(`Form.text_eq`). So compact texts are equal, ordered and hashed as their texts are, and a table with
compact keys, asked by plain texts, is a map of texts (`find?_run`).
-/

namespace ModelAtlas.Text

open Files Std

/-! ### Reading back -/

namespace Compact

/-- A form of a text: the block with as many bytes as the length counts, which are those of the text;
or the text itself if it is too long for the block. -/
def Form (text : String) : Compact → Prop
  | .inline length block =>
    text.utf8ByteSize ≤ inlineBytes ∧ length.toNat = text.utf8ByteSize ∧
      block.toArray.extract 0 length.toNat = text.toUTF8.data
  | .shared held => inlineBytes < text.utf8ByteSize ∧ held = text

theorem extract_block (bytes : ByteArray) (short : bytes.size ≤ inlineBytes) :
    (Vector.ofFn fun i : Fin inlineBytes => bytes.data.getD i.val 0).toArray.extract 0 bytes.size =
      bytes.data := by
  apply Array.ext
  · simp only [Array.size_extract, Vector.size_toArray, Nat.sub_zero]
    exact Nat.min_eq_left short
  · intro i inBlock inBytes
    have present : bytes.data[i]? = some bytes.data[i] := Array.getElem?_eq_getElem inBytes
    simp [present]

theorem form_ofString (text : String) : Form text (ofString text) := by
  have size : text.toUTF8.size = text.utf8ByteSize := String.size_toByteArray
  unfold ofString
  dsimp only
  split
  · rename_i short
    have byte : text.toUTF8.size.toUInt8.toNat = text.toUTF8.size := by
      rw [Nat.toUInt8_eq, UInt8.toNat_ofNat']
      unfold inlineBytes at short
      omega
    refine ⟨size ▸ short, byte.trans size, ?_⟩
    rw [byte]
    exact extract_block _ short
  · rename_i long
    exact ⟨size ▸ Nat.lt_of_not_le long, rfl⟩

theorem Form.text_eq {text : String} {c : Compact} (form : Form text c) : c.text = text := by
  cases c with
  | inline length block =>
    obtain ⟨_, _, bytes⟩ := form
    have whole : (⟨text.toUTF8.data⟩ : ByteArray) = text.toByteArray := rfl
    have read : String.fromUTF8? text.toByteArray = some text := dif_pos text.isValidUTF8
    show (String.fromUTF8? ⟨block.toArray.extract 0 length.toNat⟩).getD "" = text
    rw [bytes, whole, read, Option.getD_some]
  | shared held => exact form.2

theorem text_ofString (text : String) : (ofString text).text = text := (form_ofString text).text_eq

end Compact

/-! ### Texts by their bytes -/

theorem utf8_eq_flatMap (text : String) :
    text.toUTF8.toList = text.toList.flatMap String.utf8EncodeChar := by
  rw [listing_eq, String.toUTF8_eq_toByteArray, ← String.utf8Encode_toList, List.utf8Encode]
  exact List.toList_data_toByteArray

theorem ofNat_cons_lt_iff (m n : Nat) (xs ys : List UInt8) :
    UInt8.ofNat m :: xs < UInt8.ofNat n :: ys ↔
      m % 256 < n % 256 ∨ m % 256 = n % 256 ∧ xs < ys := by
  rw [List.cons_lt_cons_iff, UInt8.lt_iff_toNat_lt, ← UInt8.toNat_inj, UInt8.toNat_ofNat',
    UInt8.toNat_ofNat']

/-- The bytes of two characters differ at a place where the greater one has the greater byte. -/
theorem encode_lt {c d : Char} (less : c < d) (xs ys : List UInt8) :
    String.utf8EncodeChar c ++ xs < String.utf8EncodeChar d ++ ys := by
  have values : c.val.toNat < d.val.toNat := less
  have bound : d.val.toNat < 0x110000 := by
    have valid := d.valid
    unfold UInt32.isValidChar Nat.isValidChar at valid
    omega
  -- six bits at a time, or the digits of one number would look unrelated
  have twice (n : Nat) : n / 4096 = n / 64 / 64 := by rw [Nat.div_div_eq_div_mul]
  have thrice (n : Nat) : n / 262144 = n / 64 / 64 / 64 := by
    rw [Nat.div_div_eq_div_mul, Nat.div_div_eq_div_mul]
  unfold String.utf8EncodeChar
  simp only [twice, thrice]
  repeat' split
  all_goals
    simp only [List.cons_append, ofNat_cons_lt_iff]
    omega

theorem flatMap_encode_lt {cs ds : List Char} (less : cs < ds) :
    cs.flatMap String.utf8EncodeChar < ds.flatMap String.utf8EncodeChar := by
  induction cs generalizing ds with
  | nil =>
    cases ds with
    | nil => exact absurd less (List.not_lt_nil _)
    | cons d ds =>
      have some := @String.utf8EncodeChar_ne_nil d
      obtain ⟨first, others, bytes⟩ := List.exists_cons_of_ne_nil some
      rw [List.flatMap_cons, bytes]
      exact List.nil_lt_cons _ _
  | cons c cs ih =>
    cases ds with
    | nil => exact absurd less (List.not_lt_nil _)
    | cons d ds =>
      rw [List.flatMap_cons, List.flatMap_cons]
      rcases List.cons_lt_cons_iff.mp less with first | ⟨rfl, rest⟩
      · exact encode_lt first _ _
      · exact List.append_left_lt (ih rest)

/-- Texts are ordered as their bytes are. -/
theorem lt_iff_utf8_lt (a b : String) : a < b ↔ a.toUTF8.toList < b.toUTF8.toList := by
  have onward {s t : String} (less : s < t) : s.toUTF8.toList < t.toUTF8.toList := by
    rw [utf8_eq_flatMap, utf8_eq_flatMap]
    exact flatMap_encode_lt less
  refine ⟨onward, fun less => Decidable.byContradiction fun notBefore => ?_⟩
  have different : b ≠ a := by
    rintro rfl
    exact List.lt_irrefl _ less
  have after : b < a := Std.lt_of_le_of_ne (String.not_lt.mp notBefore) different
  exact List.lt_asymm less (onward after)

/-! ### Tables -/

/-- Entries with compact keys, in the places that the hashes of the keys give them. -/
abbrev Table (ι α : Type) := ι → List (Compact × α)

namespace Table

theorem find?_others {α : Type} {entries : List (Compact × α)} {other text : String}
    (different : other ≠ text) :
    (entries.filter (!·.1.holds other)).find? (·.1.holds text) =
      entries.find? (·.1.holds text) := by
  rw [List.find?_filter]
  congr 1
  funext entry
  by_cases held : entry.1.text = text
  · simp [Compact.holds, held, different.symm]
  · simp [Compact.holds, held]

variable {ι α : Type} [DecidableEq ι] (place : List UInt8 → ι)

/-- Puts a value under a key, in place of one under an equal key. -/
def insert (t : Table ι α) (key : Compact) (value : α) : Table ι α :=
  Function.update t (place key.hashInput)
    ((key, value) :: (t (place key.hashInput)).filter (!·.1 == key))

/-- Takes out what stands under a plain text. -/
def erase (t : Table ι α) (text : String) : Table ι α :=
  Function.update t (place (hashInput text)) ((t (place (hashInput text))).filter (!·.1.holds text))

/-- What stands under a plain text. -/
def find? (t : Table ι α) (text : String) : Option α :=
  ((t (place (hashInput text))).find? (·.1.holds text)).map (·.2)

variable {place}

theorem find?_erase (t : Table ι α) (erased text : String) :
    find? place (erase place t erased) text =
      if erased = text then none else find? place t text := by
  unfold find? erase
  split
  · rename_i same
    subst same
    simp
  · rename_i different
    by_cases collide : place (hashInput text) = place (hashInput erased)
    · rw [collide, Function.update_self, find?_others different]
    · rw [Function.update_of_ne collide]

theorem find?_insert (t : Table ι α) (key : Compact) (value : α) (text : String) :
    find? place (insert place t key value) text =
      if key.text = text then some value else find? place t text := by
  have hashed : key.hashInput = hashInput key.text := rfl
  unfold find? insert
  rw [hashed]
  split
  · rename_i same
    subst same
    simp [Compact.holds]
  · rename_i different
    by_cases collide : place (hashInput text) = place (hashInput key.text)
    · have foreign : key.holds text = false := by simpa [Compact.holds] using different
      rw [collide, Function.update_self, List.find?_cons, foreign]
      exact congrArg _ (find?_others different)
    · rw [Function.update_of_ne collide]

/-- What may be done to a table. -/
inductive Step (α : Type) where
  | insert (key : String) (value : α)
  | erase (key : String)

/-- On a table, keys are made compact as they come in. -/
def apply (place : List UInt8 → ι) (t : Table ι α) : Step α → Table ι α
  | .insert key value => insert place t (.ofString key) value
  | .erase key => erase place t key

/-- On a map of texts. -/
def applyPlain (m : ExtTreeMap String α) : Step α → ExtTreeMap String α
  | .insert key value => m.insert key value
  | .erase key => m.erase key

theorem find?_apply {t : Table ι α} {m : ExtTreeMap String α}
    (same : ∀ text, find? place t text = m[text]?) (step : Step α) (text : String) :
    find? place (apply place t step) text = (applyPlain m step)[text]? := by
  cases step with
  | insert key value =>
    simp only [apply, applyPlain, find?_insert, Compact.text_ofString, same,
      ExtTreeMap.getElem?_insert, Std.compare_eq_iff_eq]
  | erase key =>
    simp only [apply, applyPlain, find?_erase, same, ExtTreeMap.getElem?_erase,
      Std.compare_eq_iff_eq]

theorem find?_run (steps : List (Step α)) {t : Table ι α} {m : ExtTreeMap String α}
    (same : ∀ text, find? place t text = m[text]?) (text : String) :
    find? place (steps.foldl (apply place) t) text = (steps.foldl applyPlain m)[text]? := by
  induction steps generalizing t m with
  | nil => exact same text
  | cons step rest ih => exact ih (find?_apply same step)

end Table

namespace Compact

/-- Compact texts are faithful, whichever form they have: `a` lies in the block or is shared and is
read back, and equality, also with plain texts, order, which is that of the bytes, and what is hashed
are those of the texts. However hashes are made and placed, a table with compact keys that is asked
for plain texts answers as a map of texts does. -/
theorem compact_faithful (a b : String) :
    Form a (ofString a) ∧ (ofString a).text = a ∧
    (ofString a == ofString b) = (a == b) ∧
    (ofString a).holds b = (a == b) ∧ heldBy a (ofString b) = (a == b) ∧
    compare (ofString a) (ofString b) = compare a b ∧
    (compare (ofString a) (ofString b) = .lt ↔ a.toUTF8.toList < b.toUTF8.toList) ∧
    (ofString a).hashInput = Text.hashInput a ∧ hash (ofString a) = hash a ∧
    ∀ (ι α : Type) [DecidableEq ι] (place : List UInt8 → ι) (steps : List (Table.Step α)),
      Table.find? place (steps.foldl (Table.apply place) fun _ => []) a =
        (steps.foldl Table.applyPlain ∅)[a]? := by
  have textA : (ofString a).text = a := text_ofString a
  have textB : (ofString b).text = b := text_ofString b
  have ordered : compare (ofString a) (ofString b) = compare a b := by
    show compare (ofString a).text (ofString b).text = _
    rw [textA, textB]
  refine ⟨form_ofString a, textA, ?_, ?_, ?_, ordered, ?_, ?_, ?_, ?_⟩
  · show ((ofString a).text == (ofString b).text) = _
    rw [textA, textB]
  · show ((ofString a).text == b) = _
    rw [textA]
  · show (a == (ofString b).text) = _
    rw [textB]
  · rw [ordered, ← lt_iff_utf8_lt]
    exact compareOfLessAndEq_eq_lt
  · show Text.hashInput (ofString a).text = _
    rw [textA]
  · show hash (ofString a).text = _
    rw [textA]
  · intro ι α _ place steps
    have empty (text : String) :
        Table.find? place (fun _ => []) text = (∅ : ExtTreeMap String α)[text]? := by
      rw [ExtTreeMap.getElem?_empty]
      rfl
    exact Table.find?_run steps empty a

end Compact

end ModelAtlas.Text
