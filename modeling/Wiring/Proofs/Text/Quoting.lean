import Wiring.Text.Quoted
import Mathlib.Data.List.Basic

/-!
Quoted texts as a code. The written form of a character is never the beginning of another
one, and none of them begins with a quote. A quoted text therefore tells where it ends,
whatever stands behind it, and which characters it holds.
-/

namespace Wiring.Text

/-- A text is told apart from what follows it by a property that all its characters have, if
what follows does not begin with such a character. -/
theorem append_inj_of_all {p : Char → Bool} {cs ds rest rest' : List Char}
    (hcs : ∀ c ∈ cs, p c = true) (hds : ∀ c ∈ ds, p c = true)
    (hrest : ∀ c ∈ rest.head?, p c = false) (hrest' : ∀ c ∈ rest'.head?, p c = false)
    (hsame : cs ++ rest = ds ++ rest') : cs = ds ∧ rest = rest' := by
  have hnone : ∀ {rest : List Char}, (∀ c ∈ rest.head?, p c = false) →
      rest.takeWhile p = [] := by
    rintro (_ | ⟨c, rest⟩) hrest
    · rfl
    · rw [List.takeWhile_cons_of_neg (by rw [hrest c rfl]; decide)]
  have hfront := congrArg (List.takeWhile p) hsame
  rw [List.takeWhile_append_of_pos hcs, List.takeWhile_append_of_pos hds, hnone hrest,
    hnone hrest', List.append_nil, List.append_nil] at hfront
  subst hfront
  exact ⟨rfl, List.append_cancel_left hsame⟩

/-! Code points, written with the digits of the base sixteen. -/

theorem exists_digitChar_of_mem_toDigits {n : Nat} {c : Char} (hc : c ∈ Nat.toDigits 16 n) :
    ∃ k, c = Nat.digitChar k := by
  induction n using Nat.strongRecOn with
  | ind n ih =>
    rw [Nat.toDigits_eq_if (by decide)] at hc
    split at hc
    · exact ⟨n, List.mem_singleton.mp hc⟩
    · rename_i hlarge
      rcases List.mem_append.mp hc with hc | hc
      · exact ih (n / 16) (by omega) hc
      · exact ⟨n % 16, List.mem_singleton.mp hc⟩

theorem ne_brace_of_mem_toDigits {n : Nat} {c : Char} (hc : c ∈ Nat.toDigits 16 n) :
    c ≠ '\x7d' := by
  obtain ⟨k, rfl⟩ := exists_digitChar_of_mem_toDigits hc
  exact Nat.digitChar_ne '\x7d' (by decide)

theorem digitChar_inj : ∀ k < 16, ∀ l < 16, Nat.digitChar k = Nat.digitChar l → k = l := by
  decide

theorem singleton_ne_toDigits_append {n : Nat} {c d : Char} : [c] ≠ Nat.toDigits 16 n ++ [d] := by
  intro hlong
  have hfront : [] = Nat.toDigits 16 n :=
    (List.append_inj' ((List.nil_append [c]).trans hlong) rfl).1
  exact Nat.toDigits_ne_nil hfront.symm

theorem toDigits_inj {n m : Nat} (hsame : Nat.toDigits 16 n = Nat.toDigits 16 m) : n = m := by
  induction n using Nat.strongRecOn generalizing m with
  | ind n ih =>
    rw [Nat.toDigits_eq_if (n := n) (by decide), Nat.toDigits_eq_if (n := m) (by decide)] at hsame
    -- A number of one digit and a longer one differ in the number of their digits.
    split at hsame <;> split at hsame
    · rename_i hn hm
      exact digitChar_inj n hn m hm (List.singleton_inj.mp hsame)
    · exact absurd hsame singleton_ne_toDigits_append
    · exact absurd hsame.symm singleton_ne_toDigits_append
    · rename_i hn hm
      obtain ⟨hfront, hlast⟩ := List.append_inj' hsame rfl
      have hquotient : n / 16 = m / 16 := ih (n / 16) (by omega) hfront
      have hremainder : n % 16 = m % 16 :=
        digitChar_inj _ (Nat.mod_lt _ (by decide)) _ (Nat.mod_lt _ (by decide))
          (List.singleton_inj.mp hlast)
      omega

/-! One character. -/

/-- The character that a letter behind a backslash stands for. -/
def ofLetter : Char → Char
  | '0' => '\x00'
  | 't' => '\t'
  | 'r' => '\r'
  | 'n' => '\n'
  | c => c

/-- A character in one of the ways it is written inside quotes. -/
inductive Escaped (c : Char) : List Char → Prop where
  | plain (hquote : c ≠ '"') (hbackslash : c ≠ '\\') : Escaped c [c]
  | letter {k : Char} (hk : k ≠ 'u') (hc : ofLetter k = c) : Escaped c ['\\', k]
  | codePoint : Escaped c ('\\' :: 'u' :: '\x7b' :: (Nat.toDigits 16 c.toNat ++ ['\x7d']))

theorem escaped_escape (c : Char) : Escaped c (escape c) := by
  rw [escape]
  split
  · exact .letter (by decide) (by rw [‹c = _›]; rfl)
  split
  · exact .letter (by decide) (by rw [‹c = _›]; rfl)
  split
  · exact .letter (by decide) (by rw [‹c = _›]; rfl)
  split
  · exact .letter (by decide) (by rw [‹c = _›]; rfl)
  split
  · exact .letter (by decide) (by rw [‹c = _›]; rfl)
  split
  · exact .letter (by decide) (by rw [‹c = _›]; rfl)
  split
  · exact .codePoint
  · exact .plain ‹_› ‹_›

namespace Escaped

variable {c d : Char} {cs ds rest rest' : List Char}

theorem ne_quote_cons (hc : Escaped c cs) : cs ++ rest ≠ '"' :: rest' := by
  intro hsame
  cases hc with
  | plain hquote _ => exact hquote (List.cons.inj hsame).1
  | letter => cases (List.cons.inj hsame).1
  | codePoint => cases (List.cons.inj hsame).1

/-- What is read of a character is the whole character, and nothing of what follows. -/
theorem append_inj (hc : Escaped c cs) (hd : Escaped d ds) (hsame : cs ++ rest = ds ++ rest') :
    c = d ∧ rest = rest' := by
  cases hc with
  | plain _ hbackslash =>
    cases hd with
    | plain => exact List.cons.inj hsame
    | letter | codePoint => exact absurd (List.cons.inj hsame).1 hbackslash
  | letter hk hletter =>
    cases hd with
    | plain _ hbackslash => exact absurd (List.cons.inj hsame).1.symm hbackslash
    | letter _ hletter' =>
      obtain ⟨rfl, hrest⟩ := List.cons.inj (List.cons.inj hsame).2
      exact ⟨hletter.symm.trans hletter', hrest⟩
    | codePoint => exact absurd (List.cons.inj (List.cons.inj hsame).2).1 hk
  | codePoint =>
    cases hd with
    | plain _ hbackslash => exact absurd (List.cons.inj hsame).1.symm hbackslash
    | letter hk _ => exact absurd (List.cons.inj (List.cons.inj hsame).2).1.symm hk
    | codePoint =>
      have hdigits : Nat.toDigits 16 c.toNat ++ '\x7d' :: rest =
          Nat.toDigits 16 d.toNat ++ '\x7d' :: rest' := by
        simpa using hsame
      obtain ⟨hnumber, hrest⟩ := append_inj_of_all (p := (· != '\x7d'))
        (fun c hc => bne_iff_ne.mpr (ne_brace_of_mem_toDigits hc))
        (fun c hc => bne_iff_ne.mpr (ne_brace_of_mem_toDigits hc))
        (by rintro c ⟨⟩; rfl) (by rintro c ⟨⟩; rfl) hdigits
      exact ⟨Char.toNat_inj.mp (toDigits_inj hnumber), (List.cons.inj hrest).2⟩

end Escaped

/-! Whole texts. -/

/-- Two texts in quotes that read alike as far as they go are the same, and so is what
follows them. -/
theorem quotedChars_append_inj {cs ds rest rest' : List Char}
    (hsame : quotedChars cs ++ rest = quotedChars ds ++ rest') : cs = ds ∧ rest = rest' := by
  have hbody : cs.flatMap escape ++ '"' :: rest = ds.flatMap escape ++ '"' :: rest' := by
    simpa [quotedChars] using hsame
  clear hsame
  induction cs generalizing ds with
  | nil =>
    cases ds with
    | nil => exact ⟨rfl, (List.cons.inj hbody).2⟩
    | cons d ds =>
      rw [List.flatMap_cons, List.append_assoc] at hbody
      exact absurd hbody.symm (escaped_escape d).ne_quote_cons
  | cons c cs ih =>
    rw [List.flatMap_cons, List.append_assoc] at hbody
    cases ds with
    | nil => exact absurd hbody (escaped_escape c).ne_quote_cons
    | cons d ds =>
      rw [List.flatMap_cons, List.append_assoc] at hbody
      obtain ⟨rfl, htail⟩ := (escaped_escape c).append_inj (escaped_escape d) hbody
      obtain ⟨rfl, hrest⟩ := ih htail
      exact ⟨rfl, hrest⟩

end Wiring.Text
