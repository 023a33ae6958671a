import PocketCalc.Proofs.Token.Constants

/-!
# Texts in plain spelling

Plain spelling turns each lexeme into another one on its own, and what it makes of a lexeme it
leaves alone (`Lexeme.plain_plain`).  The plain lexemes are written without a gap, and figures that
come to meet are written as they would be apart (`flatMap_plain_foldr_attach`).  Words would not,
but no constant becomes a word, so that no two words come to meet.

Hence a text in plain spelling stays as it is, and a text may be put in plain spelling in parts
that no word goes across.

Main statement: `normalize_normalize_and_append`.
-/

namespace PocketCalc

open Lexeme

/-- A lexeme in plain spelling stays as it is. -/
theorem Lexeme.plain_plain (l : Lexeme) : l.plain.plain = l.plain := by
  rcases l.plain_cases with ⟨-, k, hk⟩ | ⟨-, hplain | ⟨c, o, rfl, ho⟩⟩
  · rw [hk]
    rfl
  · rw [hplain, hplain]
  · rw [ho]
    cases o <;> rfl

/-- Figures that come to meet are written as they are apart. -/
theorem flatMap_plain_foldr_attach {ls init : List Lexeme}
    (h : (ls ++ init).IsChain fun l m => ¬ (l.isWord = true ∧ m.isWord = true)) :
    ((ls.foldr attach init).flatMap fun l => l.plain.text) =
      (ls ++ init).flatMap fun l => l.plain.text :=
  flatMap_foldr_attach (fun _ _ => rfl) h

/-- A text in plain spelling stays as it is. -/
theorem normalize_normalize (text : List Char) : normalize (normalize text) = normalize text := by
  have hchain := isChain_map_plain text
  rw [← List.append_nil ((lexemes text).map plain)] at hchain
  calc normalize (normalize text)
      = (((lexemes text).map plain).foldr attach []).flatMap fun l => l.plain.text := by
        rw [← lexemes_normalize, normalize]
    _ = ((lexemes text).map plain).flatMap fun l => l.plain.text := by
        rw [flatMap_plain_foldr_attach hchain, List.append_nil]
    _ = normalize text := by
        rw [List.flatMap_map, normalize]
        simp only [plain_plain]

/-- What no word goes across is put in plain spelling part by part. -/
theorem normalize_append {a b : List Char}
    (h : ∀ c ∈ a.getLast?, ∀ d ∈ b.head?, ¬ (isLetter c = true ∧ isLetter d = true)) :
    normalize (a ++ b) = normalize a ++ normalize b := by
  rw [normalize, lexemes_append,
    flatMap_plain_foldr_attach (isChain_lexemes_append_of_letters h), List.flatMap_append]
  rfl

/-- **Plain spelling changes nothing more when it is applied again, and it works word by word.**  A
text may be put in plain spelling in two parts if the first does not end in a letter or the second
does not begin with one. -/
theorem normalize_normalize_and_append :
    (∀ text, normalize (normalize text) = normalize text) ∧
    ∀ a b, ((∀ c ∈ a.getLast?, isLetter c = false) ∨ (∀ d ∈ b.head?, isLetter d = false)) →
      normalize (a ++ b) = normalize a ++ normalize b := by
  refine ⟨normalize_normalize, fun a b h => normalize_append fun c hc d hd => ?_⟩
  rintro ⟨hletter, hletter'⟩
  rcases h with h | h
  · rw [h c hc] at hletter
    cases hletter
  · rw [h d hd] at hletter'
    cases hletter'

/-- Constants that touch other signs and constants are put in plain spelling on their own. -/
theorem normalize_normalize_and_append_constants :
    (∀ d ∈ ['π', 'e'].head?, isLetter d = false) ∧
    normalize ['p', 'i', 'e', '÷', 'e', 'π', 'e'] =
      ['p', 'i', 'e', '/'] ++ Constant.e.numeral ++ (Constant.pi.numeral ++ Constant.e.numeral) ∧
    normalize (normalize ['p', 'i', 'e', '÷', 'e', 'π', 'e']) =
      normalize ['p', 'i', 'e', '÷', 'e', 'π', 'e'] := by
  obtain ⟨hidem, happend⟩ := normalize_normalize_and_append
  have hhead : ∀ d ∈ ['π', 'e'].head?, isLetter d = false := by
    intro d hd
    obtain rfl := Option.some.inj hd
    rfl
  refine ⟨hhead, ?_, hidem _⟩
  exact happend ['p', 'i', 'e', '÷', 'e'] ['π', 'e'] (.inr hhead)

end PocketCalc
