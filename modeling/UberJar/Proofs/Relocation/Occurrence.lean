import UberJar.Proofs.Relocation.Rule
import UberJar.Proofs.Relocation.Scan
import UberJar.Proofs.Text.Utf8

namespace UberJar.Relocation

open Reference Text

/-- Whether a character may be part of a qualified name, in slash form or in dotted form. -/
def isQualifiedChar (c : Char) : Bool := isSegmentChar c || c == '/' || c == '.' || decide (0x80 ≤ c.toNat)

/-- Every byte of a qualified name may be part of one. -/
theorem isNamePart_of_mem_encode {text : List Char} (htext : ∀ c ∈ text, isQualifiedChar c = true) :
    ∀ b ∈ Utf8.encode text, isNamePart b = true := by
  intro b hb
  obtain ⟨c, hc, hbyte⟩ := List.mem_flatMap.1 hb
  by_cases hascii : c.toNat < 128
  · rw [Utf8.utf8EncodeChar_of_ascii hascii, List.mem_singleton] at hbyte
    rw [hbyte]
    exact forall_ascii (P := fun c => isQualifiedChar c = true → isNamePart (asciiByte c) = true) (by decide) hascii
      (htext c hc)
  · have hbeyond : 0x80 ≤ b := Utf8.le_of_mem_utf8EncodeChar (Nat.le_of_not_lt hascii) b hbyte
    simp [isNamePart, hbeyond]

/-- A package ends in a qualified name where the name does, at a separator or at a `$`. -/
theorem endsBefore_encode_iff {separator : Char} (hseparator : separator.toNat < 128) {rest : List Char}
    (hrest : ∀ c ∈ rest, isQualifiedChar c = true) :
    endsBefore (asciiByte separator) (Utf8.encode rest) = true ↔ EndsAt (fun c => c = separator ∨ c = '$') rest := by
  cases rest with
  | nil => simp [Utf8.encode, endsBefore, EndsAt]
  | cons c rest =>
    obtain ⟨b, more, hform, -⟩ := Utf8.piece_utf8EncodeChar c []
    have hencode : Utf8.encode (c :: rest) = b :: (more ++ Utf8.encode rest) := by
      rw [Utf8.encode, List.flatMap_cons, hform, List.cons_append]
      rfl
    have hnamed : isNamePart b = true := isNamePart_of_mem_encode hrest b (by simp [hencode])
    have hbyte {d : Char} (hd : d.toNat < 128) : b = asciiByte d ↔ c = d := by
      constructor
      · rintro rfl
        have hmem : asciiByte d ∈ Utf8.encode [c] := by simp [Utf8.encode, hform]
        exact (List.mem_singleton.1 ((Utf8.asciiByte_mem_iff hd).1 hmem)).symm
      · rintro rfl
        rw [Utf8.utf8EncodeChar_of_ascii hd] at hform
        exact (List.cons.inj hform).1.symm
    have hdollar : b = 0x24 ↔ c = '$' := hbyte (d := '$') (by decide)
    simp [hencode, endsBefore, EndsAt, hnamed, hbyte hseparator, hdollar]

/-- Where a reference may start, a form occurs in a qualified name that continues its source. -/
theorem matchesForm_encode_iff {form : Form} {word text : List Char} {separator : Char} {before : Bytes}
    (hsource : form.source = Utf8.encode word) (hform : form.separator = asciiByte separator)
    (hseparator : separator.toNat < 128) (htext : ∀ c ∈ text, isQualifiedChar c = true)
    (hstarts : startsAfter form.separator before = true) :
    matchesForm before (Utf8.encode text) form = true ↔
      ∃ tail, EndsAt (fun c => c = separator ∨ c = '$') tail ∧ text = word ++ tail := by
  constructor
  · intro hoccurs
    obtain ⟨rest, hrest⟩ := exists_append_of_matchesForm hoccurs
    rw [hrest, matchesForm_append_iff, hform] at hoccurs
    obtain ⟨tail, rfl, rfl⟩ := Utf8.exists_of_encode_eq_append (hsource ▸ hrest)
    have htail : ∀ c ∈ tail, isQualifiedChar c = true := fun c hc => htext c (List.mem_append_right _ hc)
    exact ⟨tail, (endsBefore_encode_iff hseparator htail).1 hoccurs.2, rfl⟩
  · rintro ⟨tail, hends, rfl⟩
    have htail : ∀ c ∈ tail, isQualifiedChar c = true := fun c hc => htext c (List.mem_append_right _ hc)
    rw [Utf8.encode_append, ← hsource, matchesForm_append_iff, hform]
    exact ⟨hform ▸ hstarts, (endsBefore_encode_iff hseparator htail).2 hends⟩

end UberJar.Relocation
