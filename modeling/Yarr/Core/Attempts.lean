import Mathlib.Data.List.Induction

/-!
# Attempts

A loop whose steps may fail. What each step establishes of the part of the list
that is done holds of the whole list in the end.
-/

namespace Yarr.Attempts

universe u v

variable {ε : Type u} {σ α β : Type v}

theorem ok_bind (a : α) (f : α → Except ε β) : (Except.ok a >>= f) = f a := rfl

theorem foldlM_concat (step : σ → α → Except ε σ) (s : σ) (l : List α) (a : α) :
    (l ++ [a]).foldlM step s = l.foldlM step s >>= fun s' => step s' a := by
  rw [List.foldlM_append]
  congr 1
  funext s'
  show (step s' a >>= fun s'' => Except.ok s'') = step s' a
  cases step s' a <;> rfl

theorem not_mem_of_concat {l done : List α} {a : α} (hnodup : l.Nodup) (hp : done ++ [a] <+: l) :
    a ∉ done := by
  have hconcat := hnodup.sublist hp.sublist
  rw [List.nodup_append] at hconcat
  exact fun ha => hconcat.2.2 a ha a List.mem_cons_self rfl

theorem map_ne_of_concat {f : α → β} {l done : List α} {a : α} (hnodup : (l.map f).Nodup)
    (hp : done ++ [a] <+: l) {b : α} (hb : b ∈ done) : f b ≠ f a := by
  have hprefix : done.map f ++ [f a] <+: l.map f := by
    have hmap := hp.map f
    rwa [List.map_append] at hmap
  intro heq
  exact not_mem_of_concat hnodup hprefix (heq ▸ List.mem_map_of_mem hb)

variable {step : σ → α → Except ε σ} {R : List α → σ → Prop} {l : List α}

theorem foldlM_ok
    (hstep : ∀ done a s, done ++ [a] <+: l → R done s → ∃ s', step s a = .ok s' ∧ R (done ++ [a]) s')
    {s : σ} (hs : R [] s) : ∃ s', l.foldlM step s = .ok s' ∧ R l s' := by
  induction l using List.reverseRecOn with
  | nil => exact ⟨s, rfl, hs⟩
  | append_singleton l a ih =>
      have hbefore : ∀ done b s, done ++ [b] <+: l → R done s →
          ∃ s', step s b = .ok s' ∧ R (done ++ [b]) s' := fun done b s hp =>
        hstep done b s (hp.trans (List.prefix_append l [a]))
      rcases ih hbefore with ⟨s', hs', hr⟩
      rcases hstep l a s' List.prefix_rfl hr with ⟨s'', hs'', hr'⟩
      refine ⟨s'', ?_, hr'⟩
      rw [foldlM_concat, hs', ok_bind, hs'']

/-- If a step goes through for good elements only, a loop that goes through has met no others. -/
theorem good_of_foldlM_ok {good : α → Prop}
    (hgood : ∀ done a s, done ++ [a] <+: l → R done s → good a →
      ∃ s', step s a = .ok s' ∧ R (done ++ [a]) s')
    (hbad : ∀ done a s s', done ++ [a] <+: l → R done s → step s a = .ok s' → good a)
    {s t : σ} (hs : R [] s) (ht : l.foldlM step s = .ok t) : ∀ a ∈ l, good a := by
  induction l using List.reverseRecOn generalizing t with
  | nil => exact fun a ha => absurd ha List.not_mem_nil
  | append_singleton l a ih =>
      have hprefix : l <+: l ++ [a] := List.prefix_append l [a]
      rw [foldlM_concat] at ht
      cases hbefore : l.foldlM step s with
      | error e =>
          rw [hbefore] at ht
          cases ht
      | ok s' =>
          rw [hbefore, ok_bind] at ht
          have hl := ih (fun done b s hp => hgood done b s (hp.trans hprefix))
            (fun done b s s' hp => hbad done b s s' (hp.trans hprefix)) hbefore
          have hr : ∃ s', l.foldlM step s = .ok s' ∧ R l s' := by
            apply foldlM_ok _ hs
            intro done b s hp hr
            exact hgood done b s (hp.trans hprefix) hr
              (hl b (hp.subset (List.mem_append_right done List.mem_cons_self)))
          rcases hr with ⟨s'', hs'', hr⟩
          obtain rfl := Except.ok.inj (hs''.symm.trans hbefore)
          intro b hb
          rcases List.mem_append.mp hb with hbl | hba
          · exact hl b hbl
          · rw [List.mem_singleton.mp hba]
            exact hbad l a s'' t List.prefix_rfl hr ht

end Yarr.Attempts
