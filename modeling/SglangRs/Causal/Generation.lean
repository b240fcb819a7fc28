import SglangRs.Causal.Network

/-!
# Generating tokens with a causal network

Tokens are generated one after the other, each picked from the output for the position before it.
The output for a position does not depend on later tokens, so a sequence of tokens generated so far
is the beginning of every continuation, and if there is only one token to be picked, the prompt
determines the tokens.

## Main definitions

* `Causal.tokensOf`: a list of tokens as a sequence.
* `Causal.Network.Chosen`: generated tokens that were picked one after the other.

## Main results

* `Causal.Network.Chosen.append`: one more token.
* `Causal.Network.Chosen.prefix_or_prefix`: the prompt determines the tokens.
-/

namespace Causal

variable {ε T X Q E Y : Type} [Inhabited T]

/-- The tokens at the positions of a list. -/
def tokensOf (tokens : List T) (i : ℕ) : T := tokens.getD i default

/-- Lists that agree up to a position have the same tokens there. -/
theorem tokensOf_eq_of_take {xs ys : List T} {n i : ℕ} (h : xs.take n = ys.take n) (hi : i < n) :
    tokensOf xs i = tokensOf ys i := by
  rw [tokensOf, tokensOf, List.getD_eq_getElem?_getD, List.getD_eq_getElem?_getD,
    ← List.getElem?_take_of_lt hi, h, List.getElem?_take_of_lt hi]

namespace Network

variable {N : Network ε T X Q E Y} {picks picks' : List T → Y → T → Prop}
  {prompt generated generated' : List T} {token : T} {k : ℕ} {y : Y}

/-- The output for a position is that of every list with the same tokens up to there. -/
theorem output_eq_of_take {xs ys : List T} {n : ℕ} (h : xs.take n = ys.take n) (hk : k < n) :
    N.output (tokensOf xs) k = N.output (tokensOf ys) k :=
  output_congr fun _ hi => tokensOf_eq_of_take h (hi.trans_lt hk)

variable (N picks prompt) in
/-- Every generated token was picked from the output for the position before it. -/
def Chosen (generated : List T) : Prop :=
  ∀ (j : ℕ) (token : T), generated[j]? = some token → ∃ k y, k + 1 = prompt.length + j ∧
    N.output (tokensOf (prompt ++ generated)) k = .ok y ∧
      picks (prompt ++ generated.take j) y token

theorem chosen_nil : N.Chosen picks prompt [] := nofun

omit [Inhabited T] in
/-- The tokens up to a position in what was generated. -/
theorem take_append_eq {n : ℕ} (h : generated.take n = generated'.take n) :
    (prompt ++ generated).take (prompt.length + n) =
      (prompt ++ generated').take (prompt.length + n) := by
  rw [List.take_length_add_append, List.take_length_add_append, h]

/-- One more token. -/
theorem Chosen.append (h : N.Chosen picks prompt generated)
    (hk : k + 1 = prompt.length + generated.length)
    (hy : N.output (tokensOf (prompt ++ generated)) k = .ok y)
    (hpick : picks (prompt ++ generated) y token) :
    N.Chosen picks prompt (generated ++ [token]) := by
  have hsame : (prompt ++ (generated ++ [token])).take (prompt.length + generated.length) =
      (prompt ++ generated).take (prompt.length + generated.length) :=
    take_append_eq (List.take_left.trans List.take_length.symm)
  intro j t hj
  obtain hlt | rfl : j < generated.length ∨ j = generated.length := by
    have hlen := (List.getElem?_eq_some_iff.mp hj).1
    rw [List.length_append, List.length_singleton] at hlen
    omega
  · rw [List.getElem?_append_left hlt] at hj
    obtain ⟨i, y', hi, hy', hpick'⟩ := h j t hj
    refine ⟨i, y', hi, (output_eq_of_take hsame (by omega)).trans hy', ?_⟩
    rwa [List.take_append_of_le_length hlt.le]
  · rw [List.getElem?_concat_length] at hj
    obtain rfl := Option.some.inj hj
    refine ⟨k, y, hk, (output_eq_of_take hsame (by omega)).trans hy, ?_⟩
    rwa [List.take_left]

/-- Two generated lists agree as far as both go. -/
theorem Chosen.take_eq
    (hpicks : ∀ tokens y t t', picks tokens y t → picks' tokens y t' → t = t')
    (h : N.Chosen picks prompt generated) (h' : N.Chosen picks' prompt generated') {n : ℕ}
    (hn : n ≤ generated.length) (hn' : n ≤ generated'.length) :
    generated.take n = generated'.take n := by
  induction n with
  | zero => rfl
  | succ n ih =>
      have htake := ih (by omega) (by omega)
      obtain ⟨k, y, hk, hy, hpick⟩ := h n _ (List.getElem?_eq_getElem hn)
      obtain ⟨k', y', hk', hy', hpick'⟩ := h' n _ (List.getElem?_eq_getElem hn')
      obtain rfl : k = k' := Nat.succ.inj (hk.trans hk'.symm)
      -- both tokens were picked from the output for the tokens before
      rw [output_eq_of_take (take_append_eq htake) (by omega), hy'] at hy
      obtain rfl := Except.ok.inj hy
      rw [htake] at hpick
      rw [List.take_succ_eq_append_getElem hn, List.take_succ_eq_append_getElem hn', htake,
        hpicks _ _ _ _ hpick hpick']

/-- **The prompt determines the tokens**, as far as they go, if there is only one to be picked. -/
theorem Chosen.prefix_or_prefix
    (hpicks : ∀ tokens y t t', picks tokens y t → picks' tokens y t' → t = t')
    (h : N.Chosen picks prompt generated) (h' : N.Chosen picks' prompt generated') :
    generated <+: generated' ∨ generated' <+: generated := by
  obtain hle | hle := Nat.le_total generated.length generated'.length
  · left
    rw [← List.take_length (l := generated), h.take_eq hpicks h' le_rfl hle]
    exact List.take_prefix _ _
  · right
    rw [← List.take_length (l := generated'), ← h.take_eq hpicks h' hle le_rfl]
    exact List.take_prefix _ _

end Network

end Causal
