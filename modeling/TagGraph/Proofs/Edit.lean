import Mathlib.Data.List.Forall2
import TagGraph.Store.Edit

/-!
# What an edit leaves behind

An edit gives a value or an error and leaves a store in either case. Statements about the store that
is left are put together from statements about the parts of the edit:

* `Edit.after` and `Edit.outcome`: the store that an edit leaves, and what it gives;
* `Edit.Reads`: edits that leave the store as it was;
* `Edit.Respects`: edits that relate each store to the one that they leave. For a relation that
  composes (`Store.Composes`) a sequence respects what its parts respect.
-/

namespace TagGraph

/-- A relation between a store and a later one that holds over no edit and over several. -/
structure Store.Composes (R : Store → Store → Prop) : Prop where
  refl (s : Store) : R s s
  trans {a b c : Store} : R a b → R b c → R a c

/-- What stands in the second of two lists is paired with something in the first one. -/
theorem exists_paired {α β : Type} {R : α → β → Prop} {l : List α} {l' : List β}
    (h : List.Forall₂ R l l') : ∀ b ∈ l', ∃ a ∈ l, R a b := by
  induction h with
  | nil => exact fun _ hb => nomatch hb
  | cons hfirst _ ih =>
    refine List.forall_mem_cons.mpr ⟨⟨_, List.mem_cons_self, hfirst⟩, fun b hb => ?_⟩
    obtain ⟨a, ha, hab⟩ := ih b hb
    exact ⟨a, List.mem_cons_of_mem _ ha, hab⟩

namespace Edit

variable {α β : Type} {R : Store → Store → Prop}

/-- The store that an edit leaves, whether it fails or not. -/
def after (e : Edit α) (s : Store) : Store :=
  match e s with
  | .ok _ s' => s'
  | .error _ s' => s'

/-- What an edit gives, whatever store it leaves. -/
def outcome (e : Edit α) (s : Store) : Reading α :=
  match e s with
  | .ok a _ => .ok a
  | .error err _ => .error err

/-! ## The store after the parts of an edit -/

theorem after_of_ok {e : Edit α} {s s' : Store} {a : α} (h : e s = .ok a s') : e.after s = s' := by
  rw [after, h]

theorem after_of_error {e : Edit α} {s s' : Store} {err : StoreError} (h : e s = .error err s') :
    e.after s = s' := by
  rw [after, h]

@[simp] theorem after_pure (a : α) (s : Store) : (pure a : Edit α).after s = s := rfl

@[simp] theorem after_throw (err : StoreError) (s : Store) :
    (throw err : Edit α).after s = s := rfl

@[simp] theorem after_ask (look : Store → Reading α) (s : Store) : (ask look).after s = s := by
  unfold after ask
  cases look s <;> rfl

@[simp] theorem after_get_bind (f : Store → Edit β) (s : Store) :
    ((get : Edit Store) >>= f).after s = (f s).after s := rfl

@[simp] theorem after_set (s s' : Store) : (set s' : Edit PUnit).after s = s' := rfl

@[simp] theorem after_map (f : α → β) (e : Edit α) (s : Store) : (f <$> e).after s = e.after s := by
  unfold after
  show (match EStateM.map f e s with | .ok _ s' => s' | .error _ s' => s') = _
  unfold EStateM.map
  cases e s <;> rfl

@[simp] theorem after_discard (e : Edit α) (s : Store) :
    (Functor.discard e : Edit Unit).after s = e.after s :=
  after_map (fun _ => ()) e s

theorem discard_eq_bind (e : Edit α) :
    (Functor.discard e : Edit Unit) = e >>= fun _ => pure () := by
  rw [bind_pure_comp]
  rfl

theorem after_bind_pure (e : Edit α) (f : α → β) (s : Store) :
    (e >>= fun a => (pure (f a) : Edit β)).after s = e.after s := by
  rw [bind_pure_comp]
  exact after_map f e s

@[simp] theorem after_throw_bind (err : StoreError) (f : α → Edit β) (s : Store) :
    ((throw err : Edit α) >>= f).after s = s := rfl

theorem get_bind (f : Store → Edit β) (s : Store) : ((get : Edit Store) >>= f) s = f s s := rfl

theorem bind_of_ok {e : Edit α} {f : α → Edit β} {s s' : Store} {a : α} (h : e s = .ok a s') :
    (e >>= f) s = f a s' := by
  show EStateM.bind e f s = f a s'
  rw [EStateM.bind, h]

theorem bind_of_error {e : Edit α} {f : α → Edit β} {s s' : Store} {err : StoreError}
    (h : e s = .error err s') : (e >>= f) s = .error err s' := by
  show EStateM.bind e f s = .error err s'
  rw [EStateM.bind, h]

theorem discard_of_error {e : Edit α} {s s' : Store} {err : StoreError}
    (h : e s = .error err s') : (Functor.discard e : Edit Unit) s = .error err s' := by
  show EStateM.map (fun _ => ()) e s = .error err s'
  rw [EStateM.map, h]

/-- What a sequence gives, its second part gives on the store that the first one leaves. -/
theorem ok_of_bind {e : Edit α} {f : α → Edit β} {s s'' : Store} {b : β}
    (h : (e >>= f) s = .ok b s'') : ∃ a s', e s = .ok a s' ∧ f a s' = .ok b s'' := by
  cases hfirst : e s with
  | ok a s' =>
    rw [bind_of_ok hfirst] at h
    exact ⟨a, s', rfl, h⟩
  | error err s' =>
    rw [bind_of_error hfirst] at h
    cases h

/-- A step as a whole gives what it gives. -/
theorem ok_of_atomically {e : Edit α} {s s' : Store} {a : α} (h : e.atomically s = .ok a s') :
    e s = .ok a s' := by
  cases he : e s with
  | ok b t => rwa [atomically_of_ok he] at h
  | error err t =>
    rw [atomically_of_error he] at h
    cases h

theorem after_bind_of_ok {e : Edit α} {f : α → Edit β} {s s' : Store} {a : α}
    (h : e s = .ok a s') : (e >>= f).after s = (f a).after s' := by
  unfold after
  rw [bind_of_ok h]

theorem after_bind_of_error {e : Edit α} {f : α → Edit β} {s s' : Store} {err : StoreError}
    (h : e s = .error err s') : (e >>= f).after s = s' := by
  rw [after, bind_of_error h]

/-- A step as a whole has all its effect or none. -/
theorem after_atomically (e : Edit α) (s : Store) :
    e.atomically.after s = s ∨ e.atomically.after s = e.after s := by
  cases h : e s with
  | ok a s' => exact Or.inr (by rw [after_of_ok (atomically_of_ok h), after_of_ok h])
  | error err s' => exact Or.inl (after_of_error (atomically_of_error h))

/-- What relates a store to the one after a first part, and that one to the one after the rest,
relates it to the one after the whole. The rest may rely on what the first part has found. -/
theorem rel_after_bind (hR : Store.Composes R) {e : Edit α} {f : α → Edit β} {s : Store}
    (he : R s (e.after s)) (hf : ∀ a s', e s = .ok a s' → R s' ((f a).after s')) :
    R s ((e >>= f).after s) := by
  cases h : e s with
  | ok a s' =>
    rw [after_of_ok h] at he
    rw [after_bind_of_ok h]
    exact hR.trans he (hf a s' h)
  | error err s' =>
    rw [after_of_error h] at he
    rw [after_bind_of_error h]
    exact he

/-! ## Edits that only read -/

/-- An edit that leaves the store as it was. -/
def Reads (e : Edit α) : Prop :=
  ∀ s, e.after s = s

namespace Reads

theorem pure (a : α) : Reads (pure a : Edit α) := fun s => after_pure a s

theorem throw (err : StoreError) : Reads (throw err : Edit α) := fun s => after_throw err s

theorem ask (look : Store → Reading α) : Reads (ask look) := fun s => after_ask look s

theorem bind {e : Edit α} {f : α → Edit β} (he : Reads e) (hf : ∀ a, Reads (f a)) :
    Reads (e >>= f) := by
  intro s
  have hs := he s
  cases h : e s with
  | ok a s' =>
    rw [after_of_ok h] at hs
    rw [after_bind_of_ok h, hf a s', hs]
  | error err s' =>
    rw [after_of_error h] at hs
    rw [after_bind_of_error h, hs]

theorem mapM {f : α → Edit β} (hf : ∀ a, Reads (f a)) (l : List α) : Reads (l.mapM f) := by
  induction l with
  | nil => exact Reads.pure []
  | cons a l ih =>
    rw [List.mapM_cons]
    exact (hf a).bind fun b => ih.bind fun bs => Reads.pure (b :: bs)

/-- What an edit that only reads gives, it gives on the store as it was. -/
theorem eq_of_ok {e : Edit α} (he : Reads e) {s s' : Store} {a : α} (h : e s = .ok a s') :
    s' = s := by
  rw [← after_of_ok h, he s]

/-- What follows a look-up gives its value on the store as it was. -/
theorem ok_of_bind {e : Edit α} (he : Reads e) {f : α → Edit β} {s s' : Store} {b : β}
    (h : (e >>= f) s = .ok b s') : ∃ a, e s = .ok a s ∧ f a s = .ok b s' := by
  obtain ⟨a, t, hfirst, hrest⟩ := Edit.ok_of_bind h
  obtain rfl := he.eq_of_ok hfirst
  exact ⟨a, hfirst, hrest⟩

/-- What a list of look-ups gives, they give one by one. -/
theorem mapM_ok {f : α → Edit β} (hf : ∀ a, Reads (f a)) {l : List α} :
    ∀ {s s' : Store} {bs : List β}, l.mapM f s = .ok bs s' →
      List.Forall₂ (fun a b => f a s = .ok b s) l bs := by
  induction l with
  | nil =>
    intro s s' bs h
    obtain ⟨rfl, -⟩ := EStateM.Result.ok.inj h
    exact .nil
  | cons a l ih =>
    intro s s' bs h
    rw [List.mapM_cons] at h
    obtain ⟨b, hfirst, h⟩ := (hf a).ok_of_bind h
    obtain ⟨rest, hrest, h⟩ := (Reads.mapM hf l).ok_of_bind h
    obtain ⟨rfl, -⟩ := EStateM.Result.ok.inj h
    exact .cons hfirst (ih hrest)

/-- Look-ups that give something one by one give it as a list. -/
theorem mapM_of {f : α → Edit β} {s : Store} {l : List α} {bs : List β}
    (h : List.Forall₂ (fun a b => f a s = .ok b s) l bs) : l.mapM f s = .ok bs s := by
  induction h with
  | nil => rfl
  | cons hfirst _ ih =>
    rw [List.mapM_cons, bind_of_ok hfirst, bind_of_ok ih]
    rfl

/-- Where looking something up fails, nothing happens; else the rest goes on with what was found. -/
theorem after_bind {e : Edit α} (he : Reads e) (f : α → Edit β) (s : Store) :
    (e >>= f).after s = s ∨ ∃ a, e s = .ok a s ∧ (e >>= f).after s = (f a).after s := by
  cases h : e s with
  | ok a s' =>
    obtain rfl := he.eq_of_ok h
    exact Or.inr ⟨a, rfl, after_bind_of_ok h⟩
  | error err s' =>
    have hs := he s
    rw [after_of_error h] at hs
    exact Or.inl ((after_bind_of_error h).trans hs)

/-- What only reads leaves what the part before it has left. -/
theorem after_bind_of_reads {f : α → Edit β} (hf : ∀ a, Reads (f a)) (e : Edit α) (s : Store) :
    (e >>= f).after s = e.after s := by
  cases h : e s with
  | ok a s' => rw [after_bind_of_ok h, hf a s', after_of_ok h]
  | error err s' => rw [after_bind_of_error h, after_of_error h]

end Reads

/-! ## Edits that respect a relation -/

/-- An edit that relates each store to the one that it leaves. -/
def Respects (R : Store → Store → Prop) (e : Edit α) : Prop :=
  ∀ s, R s (e.after s)

namespace Respects

theorem of_reads (hR : Store.Composes R) {e : Edit α} (he : Reads e) : Respects R e := by
  intro s
  rw [he s]
  exact hR.refl s

theorem bind (hR : Store.Composes R) {e : Edit α} {f : α → Edit β} (he : Respects R e)
    (hf : ∀ a, Respects R (f a)) : Respects R (e >>= f) :=
  fun s => rel_after_bind hR (he s) fun a s' _ => hf a s'

/-- What is looked up first changes nothing. -/
theorem reads_bind (hR : Store.Composes R) {e : Edit α} {f : α → Edit β} (he : Reads e)
    (hf : ∀ a, Respects R (f a)) : Respects R (e >>= f) :=
  (of_reads hR he).bind hR hf

theorem atomically (hR : Store.Composes R) {e : Edit α} (he : Respects R e) :
    Respects R e.atomically := by
  intro s
  rcases after_atomically e s with h | h
  · rw [h]
    exact hR.refl s
  · rw [h]
    exact he s

/-- A loop respects what its body respects. -/
theorem forIn (hR : Store.Composes R) {f : α → PUnit → Edit (ForInStep PUnit)} (l : List α)
    (hf : ∀ a ∈ l, Respects R (f a ⟨⟩)) : Respects R (ForIn.forIn l PUnit.unit f) := by
  induction l with
  | nil => exact of_reads hR (Reads.pure _)
  | cons a l ih =>
    rw [List.forIn_cons]
    refine (hf a List.mem_cons_self).bind hR fun step => ?_
    cases step with
    | done b => exact of_reads hR (Reads.pure b)
    | yield b => exact ih fun b hb => hf b (List.mem_cons_of_mem _ hb)

end Respects

end Edit

end TagGraph
