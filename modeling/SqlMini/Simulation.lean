import SqlMini.Routine

/-!
# Routines side by side

Two routines over different states run side by side on states that are
related. The first one leads: where it returns, throws or stops, the second one
does the same, and the states are related again. `Simulates E X P m m' Q` says
so, with `P` before, `Q` after a return and `E` after an exception. What comes
of the second routine after an exception in `X` is left open.

The rules follow the constructs (`simulates_pure`, `Simulates.bind`). A machine
that takes one step after another is `runAll`, and machines whose steps
correspond give the same answers (`runAll_eq`). Steps that do not count for a
relation may be left out of a run (`runAll_kept`). Sessions of a machine, one
after the other, are `chain`, and chains whose sessions correspond give the same
answers (`chain_eq`).
-/

namespace Routine

variable {φ ε σ τ α β : Type}

/-- **The second routine did what the first one did.** -/
def Alongside (E : σ → τ → Prop) (X : ε → Prop) (Q : α → σ → τ → Prop) :
    Except φ (Except ε α × σ) → Except φ (Except ε α × τ) → Prop
  | .error f, r => r = .error f
  | .ok (.error e, s), r => X e ∨ ∃ t, r = .ok (.error e, t) ∧ E s t
  | .ok (.ok a, s), r => ∃ t, r = .ok (.ok a, t) ∧ Q a s t

/-- **The second routine does what the first one does.** -/
def Simulates (E : σ → τ → Prop) (X : ε → Prop) (P : σ → τ → Prop) (m : Routine φ ε σ α)
    (m' : Routine φ ε τ α) (Q : α → σ → τ → Prop) : Prop :=
  ∀ s t, P s t → Alongside E X Q (m s) (m' t)

variable {E P : σ → τ → Prop} {X : ε → Prop} {m : Routine φ ε σ α} {m' : Routine φ ε τ α}
  {Q : α → σ → τ → Prop}

/-- A weaker conclusion from a stronger premise. -/
theorem Simulates.mono {E' P' : σ → τ → Prop} {Q' : α → σ → τ → Prop} (h : Simulates E X P m m' Q)
    (hP : ∀ s t, P' s t → P s t) (hE : ∀ s t, E s t → E' s t)
    (hQ : ∀ a s t, Q a s t → Q' a s t) : Simulates E' X P' m m' Q' := by
  intro s t hst
  have hm := h s t (hP s t hst)
  rcases hs : m s with f | ⟨e | a, s'⟩
  · rw [hs] at hm
    exact hm
  · rw [hs] at hm
    rcases hm with hx | ⟨t', ht, he⟩
    · exact Or.inl hx
    · exact Or.inr ⟨t', ht, hE s' t' he⟩
  · rw [hs] at hm
    obtain ⟨t', ht, hq⟩ := hm
    exact ⟨t', ht, hQ a s' t' hq⟩

theorem simulates_pure {a : α} (h : ∀ s t, P s t → Q a s t) :
    Simulates E X P (pure a : Routine φ ε σ α) (pure a) Q :=
  fun s t hst => ⟨t, rfl, h s t hst⟩

theorem simulates_throw {e : ε} (h : ∀ s t, P s t → E s t) :
    Simulates E X P (throw e : Routine φ ε σ α) (throw e) Q :=
  fun s t hst => Or.inr ⟨t, rfl, h s t hst⟩

/-- A computation that may throw, with what is known of its result. -/
theorem simulates_ofExcept {r : Except ε α} (hE : ∀ s t, P s t → E s t)
    (hQ : ∀ a s t, r = .ok a → P s t → Q a s t) :
    Simulates E X P (ofExcept r : Routine φ ε σ α) (ofExcept r) Q := by
  cases r with
  | ok a => exact simulates_pure (fun s t => hQ a s t rfl)
  | error e => exact simulates_throw hE

/-- **The rule of composition.** -/
theorem Simulates.bind {k : α → Routine φ ε σ β} {k' : α → Routine φ ε τ β}
    {Q' : β → σ → τ → Prop} (hm : Simulates E X P m m' Q)
    (hk : ∀ a, Simulates E X (Q a) (k a) (k' a) Q') : Simulates E X P (m >>= k) (m' >>= k') Q' := by
  intro s t hst
  have h := hm s t hst
  rcases hs : m s with f | ⟨e | a, s'⟩
  · rw [hs] at h
    rw [bind_of_stop hs, bind_of_stop h]
    rfl
  · rw [hs] at h
    rw [bind_of_throw hs]
    rcases h with hx | ⟨t', ht, he⟩
    · exact Or.inl hx
    · rw [bind_of_throw ht]
      exact Or.inr ⟨t', rfl, he⟩
  · rw [hs] at h
    obtain ⟨t', ht, hq⟩ := h
    rw [bind_of_ok hs, bind_of_ok ht]
    exact hk a s' t' hq

theorem simulates_ite {p : Prop} [Decidable p] {n : Routine φ ε σ α} {n' : Routine φ ε τ α}
    (hm : p → Simulates E X P m m' Q) (hn : ¬ p → Simulates E X P n n' Q) :
    Simulates E X P (if p then m else n) (if p then m' else n') Q := by
  split
  case isTrue hp => exact hm hp
  case isFalse hp => exact hn hp

/-- Steps in a row. -/
theorem bind_assoc {γ : Type} (m : Routine φ ε σ α) (k : α → Routine φ ε σ β)
    (l : β → Routine φ ε σ γ) : (m >>= k) >>= l = m >>= fun a => k a >>= l := by
  funext s
  rcases hs : m s with f | ⟨e | a, s'⟩
  · rw [bind_of_stop (bind_of_stop hs), bind_of_stop hs]
  · rw [bind_of_throw (bind_of_throw hs), bind_of_throw hs]
  · have hmk : (m >>= k) s = k a s' := bind_of_ok hs
    rw [bind_of_ok hs, bind_apply, bind_apply, Routine.bind, Routine.bind, hmk]

/-- What holds of the states beside a premise. -/
theorem Simulates.assuming {p : Prop} (h : p → Simulates E X P m m' Q) :
    Simulates E X (fun s t => p ∧ P s t) m m' Q :=
  fun s t hst => h hst.1 s t hst.2

/-- **What the second routine keeps** besides. -/
theorem Simulates.keeping {I : τ → Prop} (h : Simulates E X P m m' Q)
    (hI : ∀ s t r t', P s t → I t → m' t = .ok (r, t') → I t') :
    Simulates (fun s t => E s t ∧ I t) X (fun s t => P s t ∧ I t) m m'
      (fun a s t => Q a s t ∧ I t) := by
  rintro s t ⟨hst, hi⟩
  have hm := h s t hst
  rcases hs : m s with f | ⟨e | a, s'⟩
  · rw [hs] at hm
    exact hm
  · rw [hs] at hm
    rcases hm with hx | ⟨t', ht, he⟩
    · exact Or.inl hx
    · exact Or.inr ⟨t', ht, he, hI s t _ t' hst hi ht⟩
  · rw [hs] at hm
    obtain ⟨t', ht, hq⟩ := hm
    exact ⟨t', ht, hq, hI s t _ t' hst hi ht⟩

/-! ## Machines -/

variable {ι : Type} {step : ι → σ → Except φ (β × σ)} {step' : ι → τ → Except φ (β × τ)}

/-- **One step after another**: the answers up to where the machine stops, and
the state it ends in. -/
def runAll (step : ι → σ → Except φ (β × σ)) : List ι → σ → List β × Except φ σ
  | [], s => ([], .ok s)
  | i :: is, s =>
    match step i s with
    | .error f => ([], .error f)
    | .ok (b, s') => (b :: (runAll step is s').1, (runAll step is s').2)

theorem runAll_cons (i : ι) (is : List ι) (s : σ) : runAll step (i :: is) s
    = match step i s with
      | .error f => ([], .error f)
      | .ok (b, s') => (b :: (runAll step is s').1, (runAll step is s').2) := rfl

/-- **A run in two parts.** -/
theorem runAll_append : ∀ (is js : List ι) (s : σ), runAll step (is ++ js) s
      = match (runAll step is s).2 with
        | .error f => ((runAll step is s).1, .error f)
        | .ok s' => ((runAll step is s).1 ++ (runAll step js s').1, (runAll step js s').2)
  | [], js, s => rfl
  | i :: is, js, s => by
    rw [List.cons_append, runAll_cons, runAll_cons]
    rcases step i s with f | ⟨b, s'⟩
    · rfl
    · simp only [runAll_append is js s']
      rcases (runAll step is s').2 with f | s''
      · rfl
      · rfl

/-- **What every step keeps** holds at the end. -/
theorem runAll_keeps {P : σ → Prop} : ∀ (is : List ι) {s s' : σ},
    (∀ i ∈ is, ∀ b s s', P s → step i s = .ok (b, s') → P s') → P s →
      (runAll step is s).2 = .ok s' → P s'
  | [], _, _, _, hs, hrun => Except.ok.inj hrun ▸ hs
  | i :: is, s, s', hstep, hs, hrun => by
    rw [runAll_cons] at hrun
    rcases hi : step i s with f | ⟨b, s₁⟩
    · rw [hi] at hrun
      cases hrun
    · rw [hi] at hrun
      exact runAll_keeps is (fun j hj => hstep j (List.mem_cons_of_mem i hj))
        (hstep i List.mem_cons_self b s s₁ hs hi) hrun

/-- Where two runs ended. -/
def EndAlike (R : σ → τ → Prop) : Except φ σ → Except φ τ → Prop
  | .error f, r => r = .error f
  | .ok s, r => ∃ t, r = .ok t ∧ R s t

theorem EndAlike.mono {R R' : σ → τ → Prop} {r : Except φ σ} {r' : Except φ τ}
    (h : EndAlike R r r') (hR : ∀ s t, R s t → R' s t) : EndAlike R' r r' := by
  cases r with
  | error f => exact h
  | ok s =>
    obtain ⟨t, ht, hst⟩ := h
    exact ⟨t, ht, hR s t hst⟩

/-- **One step corresponds to another**, or gives an answer in `B`. -/
def StepAlike (B : β → Prop) (R : σ → τ → Prop) :
    Except φ (β × σ) → Except φ (β × τ) → Prop
  | .error f, r => r = .error f
  | .ok (b, s), r => B b ∨ ∃ t, r = .ok (b, t) ∧ R s t

/-- What the first machine did for a step of the second one. -/
theorem StepAlike.exists_of_ok {B : β → Prop} {R : σ → τ → Prop} {r : Except φ (β × σ)} {b : β}
    {t : τ} (h : StepAlike B R r (.ok (b, t))) (hB : ∀ b, ¬ B b) :
    ∃ s, r = .ok (b, s) ∧ R s t := by
  rcases r with f | ⟨b', s⟩
  · cases h
  · rcases h with hb | ⟨t', ht, hr⟩
    · exact absurd hb (hB b')
    · obtain ⟨rfl, rfl⟩ := Prod.mk.inj (Except.ok.inj ht)
      exact ⟨s, rfl, hr⟩

/-- **Machines whose steps correspond** give the same answers, as long as no
answer is in `B`. The relation may get weaker with every step. -/
theorem runAll_eq {I : ι → Prop} {B : β → Prop} {R : ℕ → σ → τ → Prop}
    (hstep : ∀ n i s t, I i → R (n + 1) s t → StepAlike B (R n) (step i s) (step' i t)) :
    ∀ (is : List ι) (n : ℕ) (s : σ) (t : τ), (∀ i ∈ is, I i) → R (n + is.length) s t →
      (∀ b ∈ (runAll step is s).1, ¬ B b) → (runAll step' is t).1 = (runAll step is s).1
        ∧ EndAlike (R n) (runAll step is s).2 (runAll step' is t).2
  | [], _, s, t, _, hR, _ => ⟨rfl, t, rfl, hR⟩
  | i :: is, n, s, t, hok, hR, hB => by
    have h := hstep (n + is.length) i s t (hok i List.mem_cons_self) hR
    unfold runAll at hB ⊢
    rcases hs : step i s with f | ⟨b, s'⟩
    · rw [hs] at h
      rw [show step' i t = .error f from h]
      exact ⟨rfl, rfl⟩
    · rw [hs] at h hB
      obtain ⟨t', ht, hR'⟩ := h.resolve_left (hB b List.mem_cons_self)
      obtain ⟨hans, hend⟩ := runAll_eq hstep is n s' t'
        (fun j hj => hok j (List.mem_cons_of_mem i hj)) hR'
        (fun b' hb' => hB b' (List.mem_cons_of_mem b hb'))
      rw [ht]
      exact ⟨congrArg (b :: ·) hans, hend⟩

/-! ## Sessions -/

section Chain

variable {session : ι → σ → List β × Except φ σ} {session' : ι → τ → List β × Except φ τ}

/-- **One session after another**: all answers up to a session that stops, and
the state it ends in. -/
def chain (session : ι → σ → List β × Except φ σ) : List ι → σ → List β × Except φ σ
  | [], s => ([], .ok s)
  | i :: is, s =>
    match (session i s).2 with
    | .error f => ((session i s).1, .error f)
    | .ok s' => ((session i s).1 ++ (chain session is s').1, (chain session is s').2)

/-- **What holds of each session** where it starts. -/
def Along (session : ι → σ → List β × Except φ σ) (P : ι → σ → Prop) : List ι → σ → Prop
  | [], _ => True
  | i :: is, s => P i s ∧ ∀ s', (session i s).2 = .ok s' → Along session P is s'

theorem chain_of_stop {i : ι} {s : σ} {f : φ} (h : (session i s).2 = .error f) (is : List ι) :
    chain session (i :: is) s = ((session i s).1, .error f) := by
  rw [chain, h]

theorem chain_of_ok {i : ι} {s s' : σ} (h : (session i s).2 = .ok s') (is : List ι) :
    chain session (i :: is) s
      = ((session i s).1 ++ (chain session is s').1, (chain session is s').2) := by
  rw [chain, h]

/-- **What every session keeps** holds at the end. -/
theorem chain_keeps {P : σ → Prop} : ∀ (is : List ι) {s s' : σ},
    (∀ i ∈ is, ∀ s s', P s → (session i s).2 = .ok s' → P s') → P s →
      (chain session is s).2 = .ok s' → P s'
  | [], _, _, _, hs, hrun => Except.ok.inj hrun ▸ hs
  | i :: is, s, s', hstep, hs, hrun => by
    rcases hi : (session i s).2 with f | s₁
    · rw [chain_of_stop hi] at hrun
      cases hrun
    · rw [chain_of_ok hi] at hrun
      exact chain_keeps is (fun j hj => hstep j (List.mem_cons_of_mem i hj))
        (hstep i List.mem_cons_self s s₁ hs hi) hrun

/-- What holds of all answers holds of those of each session. -/
theorem along_of_answers {B : β → Prop} : ∀ (is : List ι) (s : σ),
    (∀ b ∈ (chain session is s).1, B b) → Along session (fun i s => ∀ b ∈ (session i s).1, B b) is s
  | [], _, _ => trivial
  | i :: is, s, h => by
    rcases hs : (session i s).2 with f | s'
    · rw [chain_of_stop hs] at h
      exact ⟨h, fun s' hs' => by cases hs.symm.trans hs'⟩
    · rw [chain_of_ok hs] at h
      refine ⟨fun b hb => h b (List.mem_append_left _ hb), fun s₁ hs₁ => ?_⟩
      obtain rfl := Except.ok.inj (hs.symm.trans hs₁)
      exact along_of_answers is s' (fun b hb => h b (List.mem_append_right _ hb))

/-- What holds of the states between sessions holds after each. -/
theorem along_of_ends {P : σ → Prop} : ∀ (is : List ι) (s : σ),
    (∀ k s', (chain session (is.take k) s).2 = .ok s' → P s') →
      Along session (fun i s => ∀ s', (session i s).2 = .ok s' → P s') is s
  | [], _, _ => trivial
  | i :: is, s, h => by
    refine ⟨fun s' hs => h 1 s' ?_,
      fun s' hs => along_of_ends is s' (fun k s'' hk => h (k + 1) s'' ?_)⟩
    · rw [List.take_succ_cons, List.take_zero, chain_of_ok hs]
      rfl
    · rw [List.take_succ_cons, chain_of_ok hs]
      exact hk

theorem Along.and {P P' : ι → σ → Prop} : ∀ {is : List ι} {s : σ}, Along session P is s →
    Along session P' is s → Along session (fun i s => P i s ∧ P' i s) is s
  | [], _, _, _ => trivial
  | _ :: _, _, h, h' => ⟨⟨h.1, h'.1⟩, fun s' hs => (h.2 s' hs).and (h'.2 s' hs)⟩

/-- What holds of every session there is. -/
theorem along_of_forall {P : ι → Prop} : ∀ (is : List ι) (s : σ), (∀ i ∈ is, P i) →
    Along session (fun i _ => P i) is s
  | [], _, _ => trivial
  | i :: is, _, h => ⟨h i List.mem_cons_self, fun s' _ =>
      along_of_forall is s' (fun j hj => h j (List.mem_cons_of_mem i hj))⟩

/-- **Chains whose sessions correspond** give the same answers. The relation may
get weaker with every session, by what the session costs. -/
theorem chain_eq {cost : ι → ℕ} {R : ℕ → σ → τ → Prop} {P : ι → σ → Prop} {P' : ι → τ → Prop}
    (hsession : ∀ n i s t, P i s → P' i t → R (n + cost i) s t →
      (session' i t).1 = (session i s).1 ∧ EndAlike (R n) (session i s).2 (session' i t).2) :
    ∀ (is : List ι) (n : ℕ) (s : σ) (t : τ), Along session P is s → Along session' P' is t →
      R (n + (is.map cost).sum) s t → (chain session' is t).1 = (chain session is s).1
        ∧ EndAlike (R n) (chain session is s).2 (chain session' is t).2
  | [], _, s, t, _, _, hR => ⟨rfl, t, rfl, hR⟩
  | i :: is, n, s, t, hP, hP', hR => by
    rw [List.map_cons, List.sum_cons, Nat.add_comm (cost i), ← Nat.add_assoc] at hR
    obtain ⟨hanswers, hend⟩ := hsession _ i s t hP.1 hP'.1 hR
    rcases hs : (session i s).2 with f | s'
    · rw [hs] at hend
      rw [chain_of_stop hs, chain_of_stop hend]
      exact ⟨hanswers, rfl⟩
    · rw [hs] at hend
      obtain ⟨t', ht, hR'⟩ := hend
      obtain ⟨hrest, hends⟩ := chain_eq hsession is n s' t' (hP.2 s' hs) (hP'.2 t' ht) hR'
      rw [chain_of_ok hs, chain_of_ok ht]
      exact ⟨congrArg₂ (· ++ ·) hanswers hrest, hends⟩

end Chain

/-- **Steps that are kept**, by what they were and what was answered. -/
def kept (keep : ι → β → Bool) (is : List ι) (answers : List β) : List (ι × β) :=
  (is.zip answers).filter (fun step => keep step.1 step.2)

theorem kept_cons_of_pos {keep : ι → β → Bool} {i : ι} {b : β} (h : keep i b = true) (is : List ι)
    (answers : List β) : kept keep (i :: is) (b :: answers) = (i, b) :: kept keep is answers :=
  List.filter_cons_of_pos h

theorem kept_cons_of_neg {keep : ι → β → Bool} {i : ι} {b : β} (h : ¬ keep i b = true)
    (is : List ι) (answers : List β) : kept keep (i :: is) (b :: answers) = kept keep is answers :=
  List.filter_cons_of_neg h

/-- **Steps may be left out** that do not count for a relation: the others have
the same answers without them. -/
theorem runAll_kept {keep : ι → β → Bool} {I : ι → Prop} {R : σ → τ → Prop}
    (hkeep : ∀ i b s s' t, I i → R s t → step i s = .ok (b, s') → keep i b = true →
      ∃ t', step' i t = .ok (b, t') ∧ R s' t')
    (hdrop : ∀ i b s s' t, I i → R s t → step i s = .ok (b, s') → ¬ keep i b = true → R s' t) :
    ∀ (is : List ι) (s : σ) (t : τ), (∀ i ∈ is, I i) → R s t →
      ∃ t', runAll step' ((kept keep is (runAll step is s).1).map Prod.fst) t
          = ((kept keep is (runAll step is s).1).map Prod.snd, .ok t')
        ∧ ∀ s', (runAll step is s).2 = .ok s' → R s' t'
  | [], s, t, _, hR => ⟨t, rfl, fun s' hs => Except.ok.inj hs ▸ hR⟩
  | i :: is, s, t, hok, hR => by
    rw [runAll_cons]
    rcases hs : step i s with f | ⟨b, s₁⟩
    · refine ⟨t, ?_, nofun⟩
      rw [kept, List.zip_nil_right]
      rfl
    · have hrest := fun t hR => runAll_kept hkeep hdrop is s₁ t
        (fun j hj => hok j (List.mem_cons_of_mem i hj)) hR
      by_cases hb : keep i b = true
      · obtain ⟨t₁, ht, hR₁⟩ := hkeep i b s s₁ t (hok i List.mem_cons_self) hR hs hb
        obtain ⟨t', hrun, hend⟩ := hrest t₁ hR₁
        refine ⟨t', ?_, hend⟩
        rw [kept_cons_of_pos hb, List.map_cons, runAll_cons, ht, List.map_cons]
        simp only [hrun]
      · rw [kept_cons_of_neg hb]
        exact hrest t (hdrop i b s s₁ t (hok i List.mem_cons_self) hR hs hb)

end Routine
