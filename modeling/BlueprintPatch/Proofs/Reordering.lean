import BlueprintPatch.Proofs.Counting
import BlueprintPatch.Proofs.Renumbering
import BlueprintPatch.Proofs.RoundTrip

/-! Operations on different blueprints are independent of one another. Two of them that follow one
another can change places: each makes of its blueprint what it made before, but with other numbers
of the supply. So what a patch leads to is settled, up to a renumbering of what it draws, by the
operations on each blueprint in their order. -/
namespace BlueprintPatch

/-- The renumbering moves only numbers from `n` on and below `n'`. -/
def MovesWithin (n n' : ℕ) (ρ : Equiv.Perm ℕ) : Prop := ∀ k, k < n ∨ n' ≤ k → ρ k = k

namespace MovesWithin

variable {n n' : ℕ} {ρ σ : Equiv.Perm ℕ}

theorem one (n n' : ℕ) : MovesWithin n n' 1 := fun _ _ => rfl

theorem mul (h : MovesWithin n n' ρ) (h' : MovesWithin n n' σ) : MovesWithin n n' (ρ * σ) := by
  intro k hk
  rw [Equiv.Perm.mul_apply, h' k hk, h k hk]

theorem mono {m m' : ℕ} (h : MovesWithin n n' ρ) (hm : m ≤ n) (hm' : n' ≤ m') : MovesWithin m m' ρ :=
  fun k hk => h k (by omega)

end MovesWithin

/-- The exchange of the `j` numbers from `n` on for the `k` numbers that follow them. -/
def exchange (n j k : ℕ) : Equiv.Perm ℕ where
  toFun i := if i < n then i else if i < n + j then i + k else if i < n + j + k then i - j else i
  invFun i := if i < n then i else if i < n + k then i + j else if i < n + k + j then i - k else i
  left_inv i := by
    dsimp only
    split_ifs <;> omega
  right_inv i := by
    dsimp only
    split_ifs <;> omega

theorem exchange_apply (n j k i : ℕ) : exchange n j k i =
    if i < n then i else if i < n + j then i + k else if i < n + j + k then i - j else i := rfl

theorem within_exchange (n j k : ℕ) : MovesWithin n (n + j + k) (exchange n j k) := by
  intro i hi
  rw [exchange_apply]
  split_ifs <;> omega

theorem shifts_exchange_first (n j k : ℕ) : Shifts (exchange n j k) n (n + k) j := by
  intro i hi
  rw [exchange_apply]
  split_ifs <;> omega

theorem shifts_exchange_second (n j k : ℕ) : Shifts (exchange n j k) (n + j) n k := by
  intro i hi
  rw [exchange_apply]
  split_ifs <;> omega

/-- The second model has the blueprints of the first, renumbered. -/
structure Renumbered (ρ : Equiv.Perm ℕ) (m m' : Model) : Prop where
  loaded : m'.loaded = m.loaded.map (Blueprint.renumber ρ)
  next : m'.next = m.next

namespace Renumbered

variable {ρ σ : Equiv.Perm ℕ} {m m' m'' : Model}

theorem trans (h : Renumbered σ m m') (h' : Renumbered ρ m' m'') : Renumbered (ρ * σ) m m'' where
  loaded := by rw [h'.loaded, h.loaded, List.map_map, Blueprint.renumber_mul]
  next := h'.next.trans h.next

theorem resolve? (h : Renumbered ρ m m') (id : String) :
    m'.resolve? id = (m.resolve? id).map (Blueprint.renumber ρ) := by
  have hfind (p : Blueprint → Bool) (hp : p ∘ Blueprint.renumber ρ = p) :
      m'.loaded.find? p = (m.loaded.find? p).map (Blueprint.renumber ρ) := by
    rw [h.loaded, List.find?_map, hp]
  unfold Model.resolve?
  rw [hfind (·.path = id) rfl, hfind (·.name = id) rfl]
  by_cases hid : id = ""
  · simp [hid]
  · cases m.loaded.find? (·.path = id) <;> simp [hid]

theorem update (h : Renumbered ρ m m') (c : Blueprint) (k : ℕ) :
    Renumbered ρ ((m.update c).draw k) ((m'.update (c.renumber ρ)).draw k) where
  loaded := by
    have hsupplant : Model.supplant (c.renumber ρ) ∘ Blueprint.renumber ρ =
        Blueprint.renumber ρ ∘ Model.supplant c := by
      funext x
      exact (apply_ite (Blueprint.renumber ρ) (x.handle = c.handle) c x).symm
    simp only [Model.loaded_draw, Model.loaded_update, h.loaded, List.map_map, hsupplant]
  next := by simp only [Model.next_draw, Model.next_update, h.next]

end Renumbered

/-- The operation mentions no id that is generated with a number from `n` on. -/
def RawOperation.MentionsOnly (n : ℕ) (op : RawOperation) : Prop :=
  ∀ typed, op.typed? = some typed → typed.MentionsOnly n

theorem next_le_step {op : RawOperation} {m m' : Model} (h : op.step m = .ok m') :
    m.next ≤ m'.next := by
  have hrun : runInTurn [op] m = .ok m' := runInTurn_cons_eq_ok_iff.mpr ⟨m', h, rfl⟩
  exact next_le_runInTurn hrun

/-- A renumbering that moves only what was drawn since `n`, up to the present, changes nothing but
the numbers of what an operation leads to. -/
theorem Renumbered.step {ρ : Equiv.Perm ℕ} {n : ℕ} {m m' m₁ : Model} (h : Renumbered ρ m m')
    (hρ : MovesWithin n m.next ρ) {op : RawOperation} (hop : op.MentionsOnly n)
    (hstep : op.step m = .ok m₁) : ∃ m₁', op.step m' = .ok m₁' ∧ Renumbered ρ m₁ m₁' := by
  obtain ⟨typed, b, c, k, htyped, hb, hchange, rfl⟩ := RawOperation.step_eq_ok_iff.mp hstep
  have hb' : m'.resolve? typed.header.blueprint = some (b.renumber ρ) := by
    rw [h.resolve?, hb, Option.map_some]
  have hchange' : typed.change m'.next (b.renumber ρ) = some (c.renumber ρ, k) := by
    rw [h.next]
    refine Operation.change_renumber ((hop typed htyped).ignores fun j hj => hρ j (.inl hj)) hchange ?_
    exact fun i _ => hρ (m.next + i) (.inr (Nat.le_add_right _ _))
  exact ⟨_, RawOperation.step_eq_ok_iff.mpr ⟨typed, _, _, k, htyped, hb', hchange', rfl⟩,
    h.update c k⟩

theorem Renumbered.runInTurn {ρ : Equiv.Perm ℕ} {n : ℕ} {ops : List RawOperation}
    {m m' m₁ : Model} (h : Renumbered ρ m m') (hρ : MovesWithin n m.next ρ)
    (hops : ∀ op ∈ ops, op.MentionsOnly n) (hrun : runInTurn ops m = .ok m₁) :
    ∃ m₁', BlueprintPatch.runInTurn ops m' = .ok m₁' ∧ Renumbered ρ m₁ m₁' := by
  induction ops generalizing m m' with
  | nil =>
    obtain rfl := Except.ok.inj hrun
    exact ⟨m', rfl, h⟩
  | cons op ops ih =>
    obtain ⟨next, hstep, hrest⟩ := runInTurn_cons_eq_ok_iff.mp hrun
    obtain ⟨next', hstep', hnext⟩ := h.step hρ (hops op (by simp)) hstep
    have hle : m.next ≤ next.next := next_le_step hstep
    obtain ⟨m₁', hrest', h'⟩ := ih hnext (hρ.mono (Nat.le_refl n) hle)
      (fun op hop => hops op (by simp [hop])) hrest
    exact ⟨m₁', runInTurn_cons_eq_ok_iff.mpr ⟨next', hstep', hrest'⟩, h'⟩

/-- What is drawn later makes no difference to the loaded blueprints, and one object has one
content. -/
structure Model.Steady (m : Model) : Prop where
  coherent : m.Coherent
  supported : ∀ b ∈ m.loaded, b.Supported m.next

theorem Model.Steady.step {n : ℕ} {op : RawOperation} {m m' : Model} (hm : m.Steady)
    (hn : n ≤ m.next) (hop : op.MentionsOnly n) (h : op.step m = .ok m') : m'.Steady := by
  obtain ⟨typed, b, c, k, htyped, hleads⟩ := RawOperation.step_eq_ok_iff.mp h
  have hb := hm.supported b (mem_of_resolve? hleads.resolved)
  refine ⟨hm.coherent.step hleads, ?_⟩
  rw [hleads.result]
  refine forall_loaded_update (hb.change hn (hop typed htyped) hleads.changed) fun x hx => ?_
  exact (hm.supported x hx).mono (Nat.le_add_right _ _)

theorem target?_step {op o : RawOperation} {m m' : Model} (hm : m.Coherent)
    (h : op.step m = .ok m') : m'.target? o = m.target? o := by
  obtain ⟨typed, b, c, k, -, hleads⟩ := RawOperation.step_eq_ok_iff.mp h
  rw [hleads.result]
  exact Model.target?_update hm (Model.mem_of_resolve? hleads.resolved)
    (Operation.sameIdentity_of_change hleads.changed) k o

theorem Model.resolve?_update_iff {m : Model} (hm : m.Coherent) {b c d : Blueprint}
    (hb : b ∈ m.loaded) (h : SameIdentity b c) (hd : d.handle ≠ b.handle) (k : ℕ) (id : String) :
    ((m.update c).draw k).resolve? id = some d ↔ m.resolve? id = some d := by
  rw [resolve?_draw, resolve?_update hm hb h, Option.map_eq_some_iff]
  have hother : supplant c d = d := supplant_of_ne fun he => hd (he.trans h.handle)
  constructor
  · rintro ⟨x, hx, rfl⟩
    have hne : x.handle ≠ c.handle := fun he => hd ((handle_supplant c x).trans (he.trans h.handle))
    rw [supplant_of_ne hne, hx]
  · intro hx
    exact ⟨d, hx, hother⟩

/-- Two changes of different blueprints, one after the other, in either order. -/
theorem renumbered_exchange {ρ : Equiv.Perm ℕ} {m : Model} {c f : Blueprint} {j k : ℕ}
    (hcf : c.handle ≠ f.handle) (hρ : ∀ x ∈ m.loaded, x.renumber ρ = x) :
    Renumbered ρ ((((m.update c).draw j).update f).draw k)
      ((((m.update (f.renumber ρ)).draw k).update (c.renumber ρ)).draw j) where
  loaded := by
    simp only [Model.loaded_draw, Model.loaded_update, List.map_map]
    refine List.map_congr_left fun x hx => ?_
    have hc : (c.renumber ρ).handle = c.handle := rfl
    have hf : (f.renumber ρ).handle = f.handle := rfl
    simp only [Function.comp_apply, Model.supplant, hc, hf]
    by_cases hxc : x.handle = c.handle
    · have hxf : x.handle ≠ f.handle := fun h => hcf (hxc.symm.trans h)
      simp only [hxc, hcf, if_true, if_false]
    · by_cases hxf : x.handle = f.handle
      · simp only [hxf, Ne.symm hcf, hf, if_true, if_false]
      · simp only [hxc, hxf, if_false, hρ x hx]
  next := Nat.add_right_comm ..

theorem step_exchange {n : ℕ} {o p : RawOperation} {m m₁ m₂ : Model} (hm : m.Steady)
    (hn : n ≤ m.next) (ho : o.MentionsOnly n) (hp : p.MentionsOnly n)
    (hne : m.target? o ≠ m.target? p) (h₁ : o.step m = .ok m₁) (h₂ : p.step m₁ = .ok m₂) :
    ∃ ρ m₁' m₂', MovesWithin m.next m₂.next ρ ∧ p.step m = .ok m₁' ∧ o.step m₁' = .ok m₂' ∧
      Renumbered ρ m₂ m₂' := by
  have htarget : m₁.target? p = m.target? p := target?_step hm.coherent h₁
  obtain ⟨first, b, c, j, hfirst, hleads⟩ := RawOperation.step_eq_ok_iff.mp h₁
  obtain ⟨second, d, f, k, hsecond, hleads'⟩ := RawOperation.step_eq_ok_iff.mp h₂
  have hdb : d.handle ≠ b.handle := by
    intro he
    apply hne
    rw [← htarget, Model.target?_of_leads hfirst hleads, Model.target?_of_leads hsecond hleads', he]
  obtain ⟨hb, hcb, rfl⟩ := hleads
  obtain ⟨hd, hfd, rfl⟩ := hleads'
  have hbm := Model.mem_of_resolve? hb
  have hbc := Operation.sameIdentity_of_change hcb
  have hd' : m.resolve? second.header.blueprint = some d :=
    (Model.resolve?_update_iff hm.coherent hbm hbc hdb j _).mp hd
  have hdm := Model.mem_of_resolve? hd'
  let ρ := exchange m.next j k
  have hmoves : MovesWithin m.next (m.next + j + k) ρ := within_exchange m.next j k
  have hfix (x : Blueprint) (hx : x ∈ m.loaded) : x.renumber ρ = x :=
    hm.supported x hx ρ fun i hi => hmoves i (.inl hi)
  have hearly : second.change m.next d = some (f.renumber ρ, k) := by
    have h := Operation.change_renumber
      ((hp second hsecond).ignores fun i hi => hmoves i (.inl (by omega))) hfd
      (shifts_exchange_second m.next j k)
    rwa [hfix d hdm] at h
  have hlate : first.change (m.next + k) b = some (c.renumber ρ, j) := by
    have h := Operation.change_renumber
      ((ho first hfirst).ignores fun i hi => hmoves i (.inl (by omega))) hcb
      (shifts_exchange_first m.next j k)
    rwa [hfix b hbm] at h
  have hdf := Operation.sameIdentity_of_change hearly
  have hb' : ((m.update (f.renumber ρ)).draw k).resolve? first.header.blueprint = some b :=
    (Model.resolve?_update_iff hm.coherent hdm hdf (Ne.symm hdb) k _).mpr hb
  have hcf : c.handle ≠ f.handle := by
    have hf : f.handle = d.handle := hdf.handle
    rw [hbc.handle, hf]
    exact Ne.symm hdb
  exact ⟨ρ, _, _, hmoves,
    RawOperation.step_eq_ok_iff.mpr ⟨second, d, _, k, hsecond, hd', hearly, rfl⟩,
    RawOperation.step_eq_ok_iff.mpr ⟨first, b, _, j, hfirst, hb', hlate, rfl⟩,
    renumbered_exchange hcf hfix⟩

/-- The operations lead from `m` to `m₁`, up to a renumbering of what is drawn on the way. -/
def LeadsUpTo (ops : List RawOperation) (m m₁ : Model) : Prop :=
  ∃ ρ m₁', MovesWithin m.next m₁.next ρ ∧ runInTurn ops m = .ok m₁' ∧ Renumbered ρ m₁ m₁'

theorem LeadsUpTo.of_run {ops : List RawOperation} {m m₁ : Model} (h : runInTurn ops m = .ok m₁) :
    LeadsUpTo ops m m₁ := by
  refine ⟨1, m₁, .one _ _, h, ?_, rfl⟩
  rw [Blueprint.renumber_one, List.map_id']

theorem LeadsUpTo.trans {ops others : List RawOperation} {m m₁ : Model} (h : LeadsUpTo ops m m₁)
    (hothers : ∀ m₁', runInTurn ops m = .ok m₁' → LeadsUpTo others m m₁') :
    LeadsUpTo others m m₁ := by
  obtain ⟨ρ, m₁', hρ, hrun, hren⟩ := h
  obtain ⟨σ, m₁'', hσ, hrun', hren'⟩ := hothers m₁' hrun
  rw [hren.next] at hσ
  exact ⟨σ * ρ, m₁'', hσ.mul hρ, hrun', hren.trans hren'⟩

theorem LeadsUpTo.cons {op : RawOperation} {ops : List RawOperation} {m next m₁ : Model}
    (hstep : op.step m = .ok next) (h : LeadsUpTo ops next m₁) : LeadsUpTo (op :: ops) m m₁ := by
  obtain ⟨ρ, m₁', hρ, hrun, hren⟩ := h
  exact ⟨ρ, m₁', hρ.mono (next_le_step hstep) (Nat.le_refl _),
    runInTurn_cons_eq_ok_iff.mpr ⟨next, hstep, hrun⟩, hren⟩

theorem run_exchange {n : ℕ} {o p : RawOperation} {rest : List RawOperation} {m m₁ : Model}
    (hm : m.Steady) (hn : n ≤ m.next) (hops : ∀ op ∈ o :: p :: rest, op.MentionsOnly n)
    (hne : m.target? o ≠ m.target? p) (h : runInTurn (o :: p :: rest) m = .ok m₁) :
    LeadsUpTo (p :: o :: rest) m m₁ := by
  obtain ⟨mo, ho, h⟩ := runInTurn_cons_eq_ok_iff.mp h
  obtain ⟨mp, hp, hrest⟩ := runInTurn_cons_eq_ok_iff.mp h
  obtain ⟨ρ, mp', mo', hρ, hp', ho', hren⟩ :=
    step_exchange hm hn (hops o (by simp)) (hops p (by simp)) hne ho hp
  obtain ⟨m₁', hrest', hren'⟩ := hren.runInTurn (hρ.mono hn (Nat.le_refl _))
    (fun op hop => hops op (by simp [hop])) hrest
  refine ⟨ρ, m₁', hρ.mono (Nat.le_refl _) (next_le_runInTurn hrest), ?_, hren'⟩
  exact runInTurn_cons_eq_ok_iff.mpr ⟨mp', hp', runInTurn_cons_eq_ok_iff.mpr ⟨mo', ho', hrest'⟩⟩

theorem run_to_front {n : ℕ} {op : RawOperation} {before after : List RawOperation} {m m₁ : Model}
    (hm : m.Steady) (hn : n ≤ m.next) (hops : ∀ o ∈ before ++ op :: after, o.MentionsOnly n)
    (hbefore : ∀ o ∈ before, m.target? o ≠ m.target? op)
    (h : runInTurn (before ++ op :: after) m = .ok m₁) :
    LeadsUpTo (op :: (before ++ after)) m m₁ := by
  induction before generalizing m m₁ with
  | nil => exact .of_run h
  | cons o before ih =>
    obtain ⟨mo, ho, hrest⟩ := runInTurn_cons_eq_ok_iff.mp h
    have hkept (p : RawOperation) : mo.target? p = m.target? p := target?_step hm.coherent ho
    have hmo : mo.Steady := hm.step hn (hops o (by simp)) ho
    have hnext : n ≤ mo.next := Nat.le_trans hn (next_le_step ho)
    have hinner : LeadsUpTo (op :: (before ++ after)) mo m₁ := by
      refine ih hmo hnext (fun p hp => hops p (by simp [hp])) ?_ hrest
      intro p hp
      rw [hkept, hkept]
      exact hbefore p (by simp [hp])
    refine (hinner.cons ho).trans fun m₁' hrun => ?_
    refine run_exchange hm hn (fun p hp => hops p ?_) (hbefore o (by simp)) hrun
    have hperm : (o :: before ++ op :: after).Perm (o :: op :: (before ++ after)) :=
      List.perm_middle.cons o
    exact hperm.mem_iff.mpr hp

/-- The same operations in an order that keeps, for each blueprint, the order of those that name
it. -/
structure Reordered (m : Model) (ops others : List RawOperation) : Prop where
  perm : ops.Perm others
  order : ∀ h : Handle,
    ops.filter (fun op => m.target? op = some h) = others.filter fun op => m.target? op = some h

theorem Reordered.symm {m : Model} {ops others : List RawOperation} (h : Reordered m ops others) :
    Reordered m others ops :=
  ⟨h.perm.symm, fun x => (h.order x).symm⟩

/-- The first operation of the reordering is preceded, in the other order, by operations on other
blueprints only; without it both are still reorderings of one another. -/
theorem Reordered.uncons {m : Model} {op : RawOperation} {ops others : List RawOperation}
    {x : Handle} (h : Reordered m ops (op :: others)) (hx : m.target? op = some x) :
    ∃ before after, ops = before ++ op :: after ∧ (∀ o ∈ before, m.target? o ≠ m.target? op) ∧
      Reordered m (before ++ after) others := by
  have horder := h.order x
  rw [List.filter_cons_of_pos (by simpa using hx), List.filter_eq_cons_iff] at horder
  obtain ⟨before, after, rfl, hbefore, -, hafter⟩ := horder
  have hother : ∀ o ∈ before, m.target? o ≠ some x := by simpa using hbefore
  refine ⟨before, after, rfl, fun o ho => by rw [hx]; exact hother o ho, ?_, fun y => ?_⟩
  · exact (List.perm_middle.symm.trans h.perm).cons_inv
  · by_cases hy : x = y
    · subst hy
      rw [List.filter_append, List.filter_eq_nil_iff.mpr hbefore, List.nil_append, hafter]
    · have hy' := h.order y
      simp only [List.filter_append, List.filter_cons, hx, Option.some.injEq, hy, decide_false,
        Bool.false_eq_true, if_false] at hy'
      rw [List.filter_append, hy']

/-- Whatever operations lead to, a reordering of them leads to up to a renumbering. -/
theorem run_reordered {n : ℕ} {ops others : List RawOperation} {m m₁ : Model} (hm : m.Steady)
    (hn : n ≤ m.next) (hops : ∀ op ∈ ops, op.MentionsOnly n) (h : Reordered m ops others)
    (hrun : runInTurn ops m = .ok m₁) : LeadsUpTo others m m₁ := by
  induction others generalizing ops m m₁ with
  | nil =>
    obtain rfl := h.perm.eq_nil
    exact .of_run hrun
  | cons op others ih =>
    have hmem : op ∈ ops := h.perm.mem_iff.mpr (by simp)
    obtain ⟨x, hx⟩ := exists_target?_of_runInTurn hm.coherent hrun op hmem
    obtain ⟨before, after, rfl, hbefore, hrest⟩ := h.uncons hx
    refine (run_to_front hm hn hops hbefore hrun).trans fun m₁' hrun' => ?_
    obtain ⟨next, hstep, hrun'⟩ := runInTurn_cons_eq_ok_iff.mp hrun'
    have htarget (o : RawOperation) : next.target? o = m.target? o := target?_step hm.coherent hstep
    refine .cons hstep (ih (hm.step hn (hops op hmem) hstep) (Nat.le_trans hn (next_le_step hstep))
      (fun o ho => hops o ?_) ⟨hrest.perm, fun y => ?_⟩ hrun')
    · exact List.perm_middle.mem_iff.mpr (List.mem_cons_of_mem op ho)
    · simp only [htarget]
      exact hrest.order y

/-- The operation without its place in the patch. -/
def RawOperation.unplaced (op : RawOperation) : RawOperation := { op with index := 0 }

theorem runInTurn_unplaced (ops : List RawOperation) (m : Model) :
    runInTurn (ops.map RawOperation.unplaced) m = runInTurn ops m := by
  rw [runInTurn, List.foldlM_map]
  rfl

namespace Engine

variable {σ : Type} {sink : Sink σ} {text : Json} {e : Engine} {s : σ}

/-- The patch is applied, and this is reported as a success. -/
def Succeeds (sink : Sink σ) (text : Json) (e : Engine) (s : σ) : Prop :=
  ∃ o, (e.apply sink text s).2.2 = .ok o ∧ o.success = true

theorem Succeeds.accepted (h : e.Succeeds sink text s) :
    e.busy = false ∧ e.scope.isOpen = false ∧ (Document.ofValue text).operations ≠ [] := by
  obtain ⟨o, ho, hsuccess⟩ := h
  obtain ⟨hidle, hclosed, hne, -⟩ := completed_of_success ho hsuccess
  exact ⟨hidle, hclosed, hne⟩

/-- Where whoever is told returns and leaves the model alone, a patch that is taken up succeeds if
its operations lead somewhere, and the model is what they lead to. -/
theorem succeeds_of_run (hsink : ∀ report told s, (sink report told s).2.2 = none)
    (hmodel : ∀ report told s, (sink report told s).1.model = told.model)
    (hidle : e.busy = false) (hclosed : e.scope.isOpen = false)
    (hne : (Document.ofValue text).operations ≠ []) {m : Model}
    (h : runInTurn (Document.ofValue text).operations e.model = .ok m) :
    e.Succeeds sink text s ∧ (e.apply sink text s).1.model = m := by
  have happly := apply_of_completed sink s hidle hclosed hne h
  constructor
  · have hreturned := happly.trans (finish_of_returned (hsink _ _ _))
    exact ⟨_, by rw [hreturned], rfl⟩
  · rw [happly, model_finish, hmodel]
    rfl

/-- A patch whose operations are reordered, but for those on one blueprint, succeeds if the patch
does, and leads to the same blueprints up to a renumbering of what is drawn on the way. -/
theorem Succeeds.reordered {other : Json} {n : ℕ}
    (hsink : ∀ report told s, (sink report told s).2.2 = none)
    (hmodel : ∀ report told s, (sink report told s).1.model = told.model)
    (hm : e.model.Steady) (hn : n ≤ e.model.next)
    (hops : ∀ op ∈ (Document.ofValue text).operations, op.MentionsOnly n)
    (h : Reordered e.model ((Document.ofValue text).operations.map RawOperation.unplaced)
      ((Document.ofValue other).operations.map RawOperation.unplaced))
    (hsuccess : e.Succeeds sink text s) :
    e.Succeeds sink other s ∧
      ∃ ρ, MovesWithin e.model.next (e.apply sink text s).1.model.next ρ ∧
        Renumbered ρ (e.apply sink text s).1.model (e.apply sink other s).1.model := by
  obtain ⟨hidle, hclosed, hne⟩ := hsuccess.accepted
  obtain ⟨o, ho, hdone⟩ := hsuccess
  have hrun := (run_of_success hmodel ho hdone).1
  rw [← runInTurn_unplaced] at hrun
  have hops' : ∀ op ∈ (Document.ofValue text).operations.map RawOperation.unplaced,
      op.MentionsOnly n := by
    intro op hop
    obtain ⟨o, ho, rfl⟩ := List.mem_map.mp hop
    exact hops o ho
  obtain ⟨ρ, m₁', hρ, hrun', hren⟩ := run_reordered hm hn hops' h hrun
  rw [runInTurn_unplaced] at hrun'
  have hne' : (Document.ofValue other).operations ≠ [] := by
    intro hnil
    have hperm := h.perm
    rw [hnil] at hperm
    exact hne (List.map_eq_nil_iff.mp hperm.eq_nil)
  obtain ⟨hsuccess', hmodel'⟩ := succeeds_of_run (s := s) hsink hmodel hidle hclosed hne' hrun'
  exact ⟨hsuccess', ρ, hρ, hmodel' ▸ hren⟩

/-- Operations on different blueprints are independent: whether a patch succeeds does not depend on
how the operations on different blueprints are interleaved, and neither does what it leads to, but
for the numbers of what it draws. -/
theorem independent_of_interleaving (sink : Sink σ) (text other : Json) (e : Engine) (s : σ)
    (hsink : ∀ report told s, (sink report told s).2.2 = none)
    (hmodel : ∀ report told s, (sink report told s).1.model = told.model)
    (hm : e.model.Coherent) (hbelow : ∀ b ∈ e.model.loaded, b.Below e.model.next)
    (hops : ∀ op ∈ (Document.ofValue text).operations, op.MentionsOnly e.model.next)
    (h : Reordered e.model ((Document.ofValue text).operations.map RawOperation.unplaced)
      ((Document.ofValue other).operations.map RawOperation.unplaced)) :
    (e.Succeeds sink text s ↔ e.Succeeds sink other s) ∧
    (e.Succeeds sink text s →
      let m₁ := (e.apply sink text s).1.model
      let m₂ := (e.apply sink other s).1.model
      ∃ ρ : Equiv.Perm ℕ, (∀ k, k < e.model.next ∨ m₁.next ≤ k → ρ k = k) ∧
        m₂.loaded = m₁.loaded.map (Blueprint.renumber ρ) ∧ m₂.next = m₁.next) := by
  have hsteady : e.model.Steady := ⟨hm, fun b hb => (hbelow b hb).supported⟩
  have hops' : ∀ op ∈ (Document.ofValue other).operations, op.MentionsOnly e.model.next := by
    intro op hop
    obtain ⟨o, ho, heq⟩ := List.mem_map.mp (h.perm.mem_iff.mpr (List.mem_map_of_mem hop))
    have hunplaced : o.unplaced.MentionsOnly e.model.next := hops o ho
    rwa [heq] at hunplaced
  refine ⟨⟨fun hs => ?_, fun hs => ?_⟩, fun hs => ?_⟩
  · exact (hs.reordered hsink hmodel hsteady (Nat.le_refl _) hops h).1
  · exact (hs.reordered hsink hmodel hsteady (Nat.le_refl _) hops' h.symm).1
  · obtain ⟨-, ρ, hρ, hren⟩ := hs.reordered hsink hmodel hsteady (Nat.le_refl _) hops h
    exact ⟨ρ, hρ, hren.loaded, hren.next⟩

end Engine

/-- The operation that adds a node to the blueprint at the path. -/
def addGetLitTo (path : String) : RawOperation :=
  ⟨0, [("type", .str "node_add"), ("blueprint", .str path), ("node_type", .str "VariableGet"),
    ("variable_name", .str "Lit")]⟩

/-- A patch that adds a node to each of two blueprints. -/
def getLitInBoth (first second : String) : Json :=
  .str ((Json.obj [("operations",
    .arr [.obj (addGetLitTo first).fields, .obj (addGetLitTo second).fields])]).write .line)

theorem mentionsOnly_addGetLitTo (path : String) (n : ℕ) : (addGetLitTo path).MentionsOnly n := by
  rintro typed htyped d rfl
  obtain ⟨_, kind, -, -, hkind, -, hcheck⟩ := RawOperation.typed?_eq_some htyped
  have hadd : (addGetLitTo path).kind? = some .nodeAdd := rfl
  obtain rfl := Option.some.inj (hkind.symm.trans hadd)
  cases (Operation.check_eq_ok hcheck).1

theorem operations_getLitInBoth (first second : String) :
    (Document.ofValue (getLitInBoth first second)).operations.map RawOperation.unplaced =
      [addGetLitTo first, addGetLitTo second] := by
  have hitem (path : String) : Json.Plain 988 (.obj (addGetLitTo path).fields) :=
    ⟨987, rfl, by simp [addGetLitTo], trivial, trivial, trivial, trivial, trivial⟩
  have hplain : Json.Plain Json.maxDepth (.obj [("operations",
      .arr [.obj (addGetLitTo first).fields, .obj (addGetLitTo second).fields])]) :=
    ⟨989, rfl, by simp, ⟨988, rfl, hitem first, hitem second, trivial⟩, trivial⟩
  rw [getLitInBoth, Document.ofValue_str, Json.read_write hplain .line]
  rfl

theorem twinEngine_coherent : twinEngine.model.Coherent :=
  (Reachable.load _ (by decide) (.load lampDraft (by decide) .empty)).tidy.coherent

theorem twinEngine_below : ∀ b ∈ twinEngine.model.loaded, b.Below twinEngine.model.next := by
  have hnode (h p : Handle) (hh : h < twinEngine.model.next) (hp : p < twinEngine.model.next) :
      Node.Below twinEngine.model.next ⟨h, "N", "G", .variableGet, some "Lit", .zero, .zero,
        [⟨p, "P", "Lit", .output, "bool", "", []⟩]⟩ := by
    refine ⟨hh, not_isGeneratedFrom_of_short (by decide : "G".length ≤ 31), fun q hq => ?_⟩
    obtain rfl := List.mem_singleton.mp hq
    exact ⟨hp, not_isGeneratedFrom_of_short (by decide : "P".length ≤ 31), by simp⟩
  intro b hb x hx
  have hboth : twinEngine.model.loaded.flatMap Blueprint.allNodes =
      [⟨3, "N", "G", .variableGet, some "Lit", .zero, .zero,
          [⟨4, "P", "Lit", .output, "bool", "", []⟩]⟩,
        ⟨8, "N", "G", .variableGet, some "Lit", .zero, .zero,
          [⟨9, "P", "Lit", .output, "bool", "", []⟩]⟩] := rfl
  have hmem : x ∈ twinEngine.model.loaded.flatMap Blueprint.allNodes :=
    List.mem_flatMap.mpr ⟨b, hb, hx⟩
  rw [hboth] at hmem
  rcases List.mem_pair.mp hmem with rfl | rfl
  · exact hnode 3 4 (by decide) (by decide)
  · exact hnode 8 9 (by decide) (by decide)

/-- Two nodes are added to two blueprints, in either order. -/
theorem independent_of_interleaving_twins :
    let text := getLitInBoth "/Game/Lamp" "/Game/Spare"
    let other := getLitInBoth "/Game/Spare" "/Game/Lamp"
    (∀ report told s, (silentSink report told s).2.2 = none) ∧
    (∀ report told s, (silentSink report told s).1.model = told.model) ∧
    twinEngine.model.Coherent ∧
    (∀ b ∈ twinEngine.model.loaded, b.Below twinEngine.model.next) ∧
    (∀ op ∈ (Document.ofValue text).operations, op.MentionsOnly twinEngine.model.next) ∧
    Reordered twinEngine.model ((Document.ofValue text).operations.map RawOperation.unplaced)
      ((Document.ofValue other).operations.map RawOperation.unplaced) ∧
    twinEngine.Succeeds silentSink text () ∧ twinEngine.Succeeds silentSink other () ∧
    ∃ ρ : Equiv.Perm ℕ, (twinEngine.apply silentSink other ()).1.model.loaded =
      (twinEngine.apply silentSink text ()).1.model.loaded.map (Blueprint.renumber ρ) := by
  intro text other
  have htext := operations_getLitInBoth "/Game/Lamp" "/Game/Spare"
  have hother := operations_getLitInBoth "/Game/Spare" "/Game/Lamp"
  have hops : ∀ op ∈ (Document.ofValue text).operations,
      op.MentionsOnly twinEngine.model.next := by
    intro op hop
    have hmem : op.unplaced ∈ [addGetLitTo "/Game/Lamp", addGetLitTo "/Game/Spare"] :=
      htext ▸ List.mem_map_of_mem hop
    have hunplaced : op.unplaced.MentionsOnly twinEngine.model.next := by
      rcases List.mem_pair.mp hmem with h | h <;> rw [h] <;> exact mentionsOnly_addGetLitTo _ _
    exact hunplaced
  have hreordered : Reordered twinEngine.model
      ((Document.ofValue text).operations.map RawOperation.unplaced)
      ((Document.ofValue other).operations.map RawOperation.unplaced) := by
    rw [htext, hother]
    have hlamp : twinEngine.model.target? (addGetLitTo "/Game/Lamp") = some 0 := rfl
    have hspare : twinEngine.model.target? (addGetLitTo "/Game/Spare") = some 5 := rfl
    refine ⟨.swap _ _ _, fun h => ?_⟩
    simp only [List.filter_cons, List.filter_nil, hlamp, hspare, Option.some.injEq]
    by_cases hzero : 0 = h
    · subst hzero
      rfl
    · simp [hzero]
  have hrun : ∃ m, runInTurn (Document.ofValue text).operations twinEngine.model = .ok m := by
    rw [← runInTurn_unplaced, htext]
    exact ⟨_, rfl⟩
  obtain ⟨m, hm⟩ := hrun
  have hne : (Document.ofValue text).operations ≠ [] := by
    intro hnil
    rw [hnil] at htext
    cases htext
  have h := Engine.independent_of_interleaving silentSink text other twinEngine ()
    (fun _ _ _ => rfl) (fun _ _ _ => rfl) twinEngine_coherent twinEngine_below hops hreordered
  have hsuccess : twinEngine.Succeeds silentSink text () :=
    (Engine.succeeds_of_run (fun _ _ _ => rfl) (fun _ _ _ => rfl) rfl rfl hne hm).1
  obtain ⟨ρ, -, hloaded, -⟩ := h.2 hsuccess
  exact ⟨fun _ _ _ => rfl, fun _ _ _ => rfl, twinEngine_coherent, twinEngine_below, hops,
    hreordered, hsuccess, h.1.mp hsuccess, ρ, hloaded⟩

end BlueprintPatch
