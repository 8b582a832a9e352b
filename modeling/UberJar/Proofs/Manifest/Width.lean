import Mathlib.Data.List.Chain
import UberJar.Proofs.Manifest.RoundTrip
import UberJar.Proofs.Text.Ascii

namespace UberJar

open Text

namespace Manifest

/-- A text and its pieces, of which the first has room for `room` bytes and every other one for `limit`. A piece
    takes at least one character, and ends where the next one does not fit. -/
inductive Cuts (limit : Nat) : Nat → List Char → List (List Char) → Prop
  | last {room : Nat} {text : List Char} (hfits : (Utf8.encode text).length ≤ room) : Cuts limit room text [text]
  | next {room : Nat} {front rest : List Char} {c : Char} {pieces : List (List Char)} (hne : front ≠ [])
    (hfits : (Utf8.encode front).length ≤ room) (hfull : room < (Utf8.encode front).length + c.utf8Size)
    (hrest : Cuts limit limit (c :: rest) pieces) : Cuts limit room (front ++ c :: rest) (front :: pieces)

/-- Room for four bytes is enough to go on, whatever comes next. -/
theorem cuts_foldOnto {limit : Nat} (hlimit : 4 ≤ limit) (text piece : List Char) (room : Nat)
    (hroom : piece = [] → 4 ≤ room) :
    Cuts limit (room + (Utf8.encode piece.reverse).length) (piece.reverse ++ text)
      (foldOnto limit room piece text) := by
  induction text generalizing piece room with
  | nil =>
    rw [foldOnto, List.append_nil]
    exact .last (Nat.le_add_left _ room)
  | cons c text ih =>
    have hchar := c.utf8Size_le_four
    have hnil : (Utf8.encode []).length = 0 := rfl
    rw [foldOnto]
    split
    · rename_i hfits
      have hgrown := ih (c :: piece) (room - c.utf8Size) (by simp)
      rw [List.reverse_cons, Utf8.length_encode_append, Utf8.length_encode_cons, List.append_assoc] at hgrown
      have hsame : room - c.utf8Size + ((Utf8.encode piece.reverse).length + (c.utf8Size + (Utf8.encode []).length)) =
          room + (Utf8.encode piece.reverse).length := by omega
      rwa [hsame] at hgrown
    · rename_i hfull
      have hrest := ih [c] (limit - c.utf8Size) (by simp)
      rw [List.reverse_singleton, Utf8.length_encode_cons] at hrest
      have hsame : limit - c.utf8Size + (c.utf8Size + (Utf8.encode []).length) = limit := by omega
      rw [hsame] at hrest
      -- A piece without a character would have had room for this one.
      have hne : piece ≠ [] := fun hnil => hfull (Nat.le_trans hchar (hroom hnil))
      exact .next (by simpa using hne) (Nat.le_add_left _ room) (by omega) hrest

theorem cuts_foldLine (text : List Char) : Cuts (maxLine - 1) maxLine text (foldLine text) :=
  cuts_foldOnto (by decide) text [] maxLine (fun _ => by decide)

theorem Cuts.exists_cons {limit room : Nat} {c : Char} {rest : List Char} {pieces : List (List Char)}
    (hcuts : Cuts limit room (c :: rest) pieces) : ∃ more others, pieces = (c :: more) :: others := by
  generalize htext : c :: rest = text at hcuts
  cases hcuts with
  | last hfits => exact ⟨rest, [], by rw [htext]⟩
  | @next _ front _ _ pieces hne hfits hfull hrest =>
    obtain ⟨first, more, rfl⟩ := List.exists_cons_of_ne_nil hne
    rw [List.cons_append, List.cons.injEq] at htext
    exact ⟨more, pieces, by rw [htext.1]⟩

/-- A line, and one behind it that starts with a space and a character for which the line had no room. -/
def IsFull (width : Nat) (line next : List Char) : Prop :=
  ∃ c rest, next = ' ' :: c :: rest ∧ width < (Utf8.encode line).length + c.utf8Size

/-- Pieces become lines that fit and are full, if the first one is put behind `lead` and the others behind a space. -/
theorem Cuts.lines {limit room : Nat} {text : List Char} {pieces : List (List Char)}
    (hcuts : Cuts limit room text pieces)
    (lead : List Char) (hlead : (Utf8.encode lead).length + room = limit + 1) :
    ∃ first others, pieces = first :: others ∧
      (∀ line ∈ (lead ++ first) :: others.map (' ' :: ·), (Utf8.encode line).length ≤ limit + 1) ∧
      ((lead ++ first) :: others.map (' ' :: ·)).IsChain (IsFull (limit + 1)) := by
  induction hcuts generalizing lead with
  | @last room text hfits =>
    refine ⟨text, [], rfl, ?_, .singleton _⟩
    intro line hline
    obtain rfl := List.mem_singleton.1 hline
    rw [Utf8.length_encode_append]
    omega
  | @next room front rest c pieces hne hfits hfull hrest ih =>
    have hspace : (Utf8.encode [' ']).length + limit = limit + 1 := Nat.add_comm 1 limit
    obtain ⟨second, others, rfl, hwidth, hchain⟩ := ih [' '] hspace
    obtain ⟨more, _, hpieces⟩ := hrest.exists_cons
    obtain ⟨rfl, -⟩ := List.cons.inj hpieces
    have hlength := Utf8.length_encode_append lead front
    refine ⟨front, (c :: more) :: others, rfl, ?_, ?_⟩
    · rw [List.map_cons, List.forall_mem_cons]
      exact ⟨by omega, hwidth⟩
    · rw [List.map_cons, List.isChain_cons_cons]
      exact ⟨⟨c, more, rfl, by omega⟩, hchain⟩

theorem encode_lines (lines : List (List Char)) : Utf8.encode (lines.flatMap (· ++ ['\r', '\n'])) =
    (lines.map Utf8.encode).flatMap (· ++ [0x0D, 0x0A]) := by
  rw [Utf8.encode, List.flatMap_assoc, List.flatMap_map]
  refine List.flatMap_congr fun line _ => ?_
  exact Utf8.encode_append line ['\r', '\n']

theorem IsUnbroken.encode {text : List Char} (htext : IsUnbroken text) :
    0x0D ∉ Utf8.encode text ∧ 0x0A ∉ Utf8.encode text :=
  ⟨mt (Utf8.asciiByte_mem_iff (d := '\r') (by decide)).1 htext.2,
    mt (Utf8.asciiByte_mem_iff (d := '\n') (by decide)).1 htext.1⟩

end Manifest

open Manifest

/-- An attribute without line breaks takes lines of at most 72 bytes, each of them a text of its own. All but the
    first start with a space and go on with a character that did not fit into the line before, and without that
    space the lines make up the attribute. -/
theorem Attribute.render_wraps {a : Attribute} (hname : IsUnbroken a.name) (hvalue : IsUnbroken a.value) :
    ∃ (first : Bytes) (others : List Bytes),
      Utf8.encode a.render = (first :: others.map (0x20 :: ·)).flatMap (· ++ [0x0D, 0x0A]) ∧
      (∀ line ∈ first :: others.map (0x20 :: ·),
        (Utf8.decode? line).isSome = true ∧ line.length ≤ 72 ∧ 0x0D ∉ line ∧ 0x0A ∉ line) ∧
      (∀ part ∈ others, part ≠ []) ∧
      first ++ others.flatten = Utf8.encode (a.name ++ ": ".toList ++ a.value) ∧
      (first :: others.map (0x20 :: ·)).IsChain fun line next =>
        ∃ c rest, next = 0x20 :: Utf8.encode (c :: rest) ∧ 72 < line.length + c.utf8Size := by
  have hne : a.line ≠ [] := by simp [line]
  obtain ⟨first, others, hpieces, hfolded, hparts⟩ := exists_foldLine_eq a.line
  obtain ⟨_, _, hsame, hwidth, hchain⟩ := (cuts_foldLine a.line).lines [] rfl
  obtain ⟨rfl, rfl⟩ := List.cons.inj (hpieces.symm.trans hsame)
  rw [List.nil_append, ← hfolded] at hwidth hchain
  have hbytes : Utf8.encode first :: (others.map Utf8.encode).map (0x20 :: ·) =
      (foldedLines a.line).map Utf8.encode := by
    rw [hfolded, List.map_cons, List.map_map, List.map_map]
    rfl
  refine ⟨Utf8.encode first, others.map Utf8.encode, ?_, ?_, ?_, ?_, ?_⟩
  · rw [hbytes, ← encode_lines, ← renderLine_eq]
    rfl
  · rw [hbytes, List.forall_mem_map]
    intro line hline
    have hunbroken := (foldedLines_spec hne (isUnbroken_line hname hvalue) line hline).2
    exact ⟨by rw [Utf8.decode?_encode, Option.isSome_some], hwidth line hline, hunbroken.encode⟩
  · rw [List.forall_mem_map]
    intro part hpart
    have htaken := ne_nil_of_mem_foldLine hne part (hpieces ▸ List.mem_cons_of_mem first hpart)
    obtain ⟨c, more, rfl⟩ := List.exists_cons_of_ne_nil htaken
    simp [Utf8.encode, String.utf8EncodeChar_ne_nil]
  · have htext : a.name ++ ": ".toList ++ a.value = first ++ others.flatten :=
      (List.append_assoc a.name [':', ' '] a.value).trans hparts
    rw [htext, Utf8.encode_append, Utf8.encode_flatten]
  · rw [hbytes, List.isChain_map]
    refine hchain.imp fun line next => ?_
    rintro ⟨c, rest, rfl, hlt⟩
    exact ⟨c, rest, rfl, hlt⟩

/-- The first line ends one byte early, in front of a character of four bytes. -/
theorem Attribute.render_wraps_before_character :
    ∃ a : Attribute, a = ⟨['X'], List.replicate 18 '😀'⟩ ∧ IsUnbroken a.name ∧ IsUnbroken a.value ∧
      a.render = "X: ".toList ++ List.replicate 17 '😀' ++ "\r\n 😀\r\n".toList ∧
      (Utf8.encode ("X: ".toList ++ List.replicate 17 '😀')).length = 71 ∧
      ∃ (first : Bytes) (others : List Bytes), others ≠ [] ∧
        Utf8.encode a.render = (first :: others.map (0x20 :: ·)).flatMap (· ++ [0x0D, 0x0A]) ∧
        (∀ line ∈ first :: others.map (0x20 :: ·),
          (Utf8.decode? line).isSome = true ∧ line.length ≤ 72 ∧ 0x0D ∉ line ∧ 0x0A ∉ line) ∧
        (∀ part ∈ others, part ≠ []) ∧
        first ++ others.flatten = Utf8.encode (a.name ++ ": ".toList ++ a.value) := by
  let a : Attribute := ⟨['X'], List.replicate 18 '😀'⟩
  have hname : IsUnbroken a.name := by decide
  have hvalue : IsUnbroken a.value := by decide
  obtain ⟨first, others, hbytes, hlines, hparts, htext, -⟩ := Attribute.render_wraps hname hvalue
  have hmore : others ≠ [] := by
    rintro rfl
    have hwidth := (hlines first List.mem_cons_self).2.1
    have hlength := congrArg List.length htext
    have hsize : (Utf8.encode (a.name ++ ": ".toList ++ a.value)).length = 75 := by decide
    rw [List.flatten_nil, List.append_nil, hsize] at hlength
    omega
  exact ⟨a, rfl, hname, hvalue, by decide, by decide, first, others, hmore, hbytes, hlines, hparts, htext⟩

end UberJar
