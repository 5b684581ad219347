import RouteScribe.Proofs.Source.Within
import RouteScribe.Proofs.Typing.Runs

/-!
# What runs spend, and when they come to an end

Inference has four guards against going on for ever: expressions and aliases that are being worked
out, objects that are being displayed, and objects whose properties are being worked out, which count
as known from then on.  The guards bound everything but the number of objects that are created.  This
file sets up the bookkeeping for that statement, for runs on one file.

`remaining` counts what the guards leave to do while there are at most `bound` objects; the store
part of it only shrinks as a run goes on.  `Store.held` and `Context.credit` count the objects that
a store has, those that its unknown shapes can still give, and those that unresolved aliases can
give; in a file without type queries a run never spends more than what is there and what it costs.

`Tame` puts both together as a property of a family of runs that is closed under the ways runs are
put together (`Tame.bind` and the rules after it).  One statement per function of inference, in the
modules that follow, then gives the bound and the end of all runs.
-/

namespace RouteScribe.Typing

open Filter Infer
open Source (Node Cursor)

/-! ## Stores and contexts of a file -/

/-- No type of a file is the type of a variable. -/
def QueryFree (root : Node) : Prop := ∀ c ∈ (Cursor.ofRoot root).preorder, c.kind ≠ .typeQuery

instance (root : Node) : Decidable (QueryFree root) :=
  inferInstanceAs (Decidable (∀ c ∈ (Cursor.ofRoot root).preorder, c.kind ≠ .typeQuery))

namespace Shape

def isKnown : Shape → Bool
  | .known _ => true
  | _ => false

/-- The most objects that can come from working out a shape. -/
def cost : Shape → Nat
  | .interface declaration => 4 * declaration.size
  | .members body => 2 * body.size - 1
  | _ => 0

/-- A shape is worked out from nodes of a file. -/
def Within (root : Node) : Shape → Prop
  | .interface declaration => Source.Within root declaration
  | .members body => Source.Within root body
  | _ => True

@[simp] lemma isKnown_known (properties : List Property) : (known properties).isKnown = true := rfl

@[simp] lemma cost_known (properties : List Property) : (known properties).cost = 0 := rfl

lemma cost_of_isKnown {shape : Shape} (h : shape.isKnown = true) : shape.cost = 0 := by
  cases shape with
  | known _ => rfl
  | _ => cases h

end Shape

namespace Store

/-- The shapes of a store are worked out from nodes of a file. -/
def Within (root : Node) (s : Store) : Prop := ∀ o ∈ s.objects.toList, o.shape.Within root

/-- The number of objects whose properties are known. -/
def known (s : Store) : Nat := s.objects.toList.countP (·.shape.isKnown)

/-- The number of objects, and of those that can still come from working out their shapes. -/
def held (s : Store) : Nat := (s.objects.toList.map fun o => 1 + o.shape.cost).sum

lemma known_le_size (s : Store) : s.known ≤ s.objects.size := by
  rw [← Array.length_toList]
  exact List.countP_le_length

lemma size_le_held (s : Store) : s.objects.size ≤ s.held := by
  rw [held, ← Array.length_toList]
  induction s.objects.toList with
  | nil => simp
  | cons o rest ih => simp only [List.length_cons, List.map_cons, List.sum_cons]; omega

end Store

/-- The number of objects that can come from the aliases that are neither resolved nor being
resolved. -/
def Context.credit (c : Context) (s : Store) : Nat :=
  ((c.aliases.filter fun a =>
    !c.resolvingAliases.contains a.1 && (s.aliases.lookup a.1).isNone).map fun a =>
      4 * a.2.size + 1).sum

/-- A file, a bound on the number of objects, and whether it is asked that runs come to an end. -/
structure Setting where
  root : Node
  bound : Nat
  ending : Prop

namespace Setting

variable (w : Setting)

/-- The declarations that a context holds are nodes of the file. -/
def Reads (c : Context) : Prop := ∀ a ∈ c.aliases, Source.Within w.root a.2

/-- How many expressions of the file are not being worked out. -/
def pending (c : Context) : Nat := (w.root.keys \ c.resolving.toFinset).card

/-- What the guards leave to do while the number of objects stays within the bound. -/
def remaining (c : Context) (s : Store) : Nat :=
  (w.bound - s.known) + w.pending c +
    ((c.aliases.map (·.1)).toFinset \ c.resolvingAliases.toFinset).card +
    (Finset.range w.bound \ c.displaying.toFinset).card

end Setting

/-- A store that a run may leave: objects are added, and properties become known. -/
structure Store.Grows (s s' : Store) : Prop where
  size : s.objects.size ≤ s'.objects.size
  known : s.known ≤ s'.known

lemma Store.Grows.refl (s : Store) : s.Grows s := ⟨le_rfl, le_rfl⟩

lemma Store.Grows.trans {s s' s'' : Store} (h : s.Grows s') (h' : s'.Grows s'') : s.Grows s'' :=
  ⟨h.size.trans h'.size, h.known.trans h'.known⟩

section

variable {α β : Type} {w : Setting} {m n n' : Nat} {c : Context} {s s' : Store}

lemma Setting.remaining_le (h : s.Grows s') : w.remaining c s' ≤ w.remaining c s := by
  have hknown := h.known
  unfold Setting.remaining
  omega

/-- A run that stays in the file, and without type queries spends at most `n` besides what is held
and what is still to be had from aliases.  A failure may come in the middle of an alias, whose
credit is then used up without the alias being resolved. -/
structure Spends (w : Setting) (n : Nat) (c : Context) (s : Store) (out : Outcome α) : Prop where
  within : out.2.Within w.root
  grows : s.Grows out.2
  held : QueryFree w.root → out.2.held ≤ s.held + c.credit s + n
  credit : QueryFree w.root → ∀ a, out.1 = .ok a →
    out.2.held + c.credit out.2 ≤ s.held + c.credit s + n

lemma Spends.mono {out : Outcome α} (h : Spends w n c s out) (hn : n ≤ n') :
    Spends w n' c s out where
  within := h.within
  grows := h.grows
  held hfree := by have := h.held hfree; omega
  credit hfree a ha := by have := h.credit hfree a ha; omega

lemma spends_self (h : s.Within w.root) (r : Except Failure α) : Spends w n c s (r, s) where
  within := h
  grows := .refl s
  held _ := by simp only; omega
  credit _ _ _ := by simp only; omega

/-- A run after a first one that gave an answer. -/
lemma Spends.trans {a : α} {out : Outcome β} (h : Spends w n c s (.ok a, s'))
    (h' : Spends w n' c s' out) : Spends w (n + n') c s out where
  within := h'.within
  grows := h.grows.trans h'.grows
  held hfree := by
    have h₁ := h.credit hfree a rfl
    have h₂ := h'.held hfree
    simp only at h₁
    omega
  credit hfree b hb := by
    have h₁ := h.credit hfree a rfl
    have h₂ := h'.credit hfree b hb
    simp only at h₁
    omega

lemma Spends.error {e : Failure} (h : Spends w n c s ((.error e, s') : Outcome α)) :
    Spends w (n + n') c s ((.error e, s') : Outcome β) where
  within := h.within
  grows := h.grows
  held hfree := by have := h.held hfree; simp only at this ⊢; omega
  credit _ _ ha := by cases ha

/-- The runs of a family leave at most so many objects, from some depth on. -/
def Bounded (bound : Nat) (x : Nat → Infer α) (c : Context) (s : Store) : Prop :=
  ∀ᶠ d in atTop, ∃ e, ((x d).exec (c.atDepth e) s).2.objects.size ≤ bound

/-- Runs that spend at most `n`, and that come to an end when less than `m` remains to do and the
number of objects stays within the bound. -/
structure Tame (w : Setting) (m : Nat) (c : Context) (n : Nat) (x : Nat → Infer α) : Prop where
  spends : ∀ d e s, s.Within w.root → Spends w n c s ((x d).exec (c.atDepth e) s)
  ends : w.ending → ∀ s, s.Within w.root → w.remaining c s < m → Bounded w.bound x c s →
    Halts x c s

/-! ## How tame runs are put together -/

lemma Tame.mono {x : Nat → Infer α} (h : Tame w m c n x) (hn : n ≤ n') : Tame w m c n' x where
  spends d e s hs := (h.spends d e s hs).mono hn
  ends := h.ends

/-- A step whose outcome does not depend on the depth and that leaves the store as it is. -/
lemma tame_of_exec {x : Nat → Infer α} {r : Store → Except Failure α}
    (h : ∀ d e s, (x d).exec (c.atDepth e) s = (r s, s)) (hr : ∀ s, r s ≠ .error .exhausted) :
    Tame w m c n x where
  spends d e s hs := by
    rw [h]
    exact spends_self hs _
  ends _ s _ _ _ := ⟨(r s, s), hr s, .of_exec fun d e => h d e s⟩

lemma tame_pure (a : α) : Tame w m c n fun _ => pure a :=
  tame_of_exec (r := fun _ => .ok a) (fun _ _ _ => rfl) fun _ h => by cases h

lemma tame_throw {e : Failure} (he : e ≠ .exhausted) : Tame w m c n fun _ => (throw e : Infer α) :=
  tame_of_exec (r := fun _ => .error e) (fun _ _ _ => rfl) fun _ h => he (by simpa using h)

lemma tame_ofNumbers (r : Except Numeral.NotANumber α) : Tame w m c n fun _ => Infer.ofNumbers r := by
  cases r with
  | ok a => exact tame_pure a
  | error e => exact tame_throw (by simp)

/-- Two runs, one after the other, the second for the answers that the first can give. -/
theorem Tame.bindOf {x : Nat → Infer α} {f : Nat → α → Infer β} {P : α → Prop}
    (hx : Tame w m c n x)
    (hP : ∀ d e s a s', s.Within w.root → (x d).exec (c.atDepth e) s = (.ok a, s') → P a)
    (hf : ∀ a, P a → Tame w m c n' fun d => f d a) : Tame w m c (n + n') fun d => x d >>= f d where
  spends d e s hs := by
    have hfirst := hx.spends d e s hs
    rcases hout : (x d).exec (c.atDepth e) s with ⟨err | a, s'⟩
    · rw [exec_bind_error hout]
      rw [hout] at hfirst
      exact hfirst.error
    · rw [exec_bind_ok hout]
      rw [hout] at hfirst
      exact hfirst.trans ((hf a (hP d e s a s' hs hout)).spends d e s' hfirst.within)
  ends hE s hs hm hb := by
    have hbx : Bounded w.bound x c s := by
      filter_upwards [hb] with d hb
      obtain ⟨e, hb⟩ := hb
      refine ⟨e, le_trans ?_ hb⟩
      have hfirst := hx.spends d e s hs
      rcases hout : (x d).exec (c.atDepth e) s with ⟨err | a, s'⟩
      · rw [exec_bind_error hout]
      · rw [exec_bind_ok hout]
        rw [hout] at hfirst
        exact ((hf a (hP d e s a s' hs hout)).spends d e s' hfirst.within).grows.size
    obtain ⟨⟨err | a, s'⟩, hne, hgives⟩ := hx.ends hE s hs hm hbx
    · exact ⟨(.error err, s'), fun h => hne (by simpa using h), hgives.bind_error⟩
    · obtain ⟨d, hd⟩ := hgives.exists
      have hfirst := hx.spends d 0 s hs
      rw [hd 0] at hfirst
      have hbf : Bounded w.bound (fun d => f d a) c s' := by
        filter_upwards [hb, hgives] with d hb hgives
        obtain ⟨e, hb⟩ := hb
        rw [exec_bind_ok (hgives e)] at hb
        exact ⟨e, hb⟩
      obtain ⟨out, hne', hgives'⟩ := (hf a (hP d 0 s a s' hs (hd 0))).ends hE s' hfirst.within
        ((w.remaining_le hfirst.grows).trans_lt hm) hbf
      exact ⟨out, hne', hgives.bind hgives'⟩

/-- Two runs, one after the other. -/
theorem Tame.bind {x : Nat → Infer α} {f : Nat → α → Infer β} (hx : Tame w m c n x)
    (hf : ∀ a, Tame w m c n' fun d => f d a) : Tame w m c (n + n') fun d => x d >>= f d :=
  hx.bindOf (P := fun _ => True) (fun _ _ _ _ _ _ _ => trivial) fun a _ => hf a

/-- A run after one that costs nothing. -/
lemma Tame.bind_free {x : Nat → Infer α} {f : Nat → α → Infer β} (hx : Tame w m c 0 x)
    (hf : ∀ a, Tame w m c n fun d => f d a) : Tame w m c n fun d => x d >>= f d :=
  (hx.bind hf).mono (by omega)

/-- A run before one that costs nothing. -/
lemma Tame.bind_last {x : Nat → Infer α} {f : Nat → α → Infer β} (hx : Tame w m c n x)
    (hf : ∀ a, Tame w m c 0 fun d => f d a) : Tame w m c n fun d => x d >>= f d :=
  hx.bind hf

/-- A run for each item of a list. -/
lemma tame_mapM {f : Nat → α → Infer β} {k : α → Nat} {l : List α}
    (h : ∀ a ∈ l, Tame w m c (k a) fun d => f d a) :
    Tame w m c (l.map k).sum fun d => l.mapM (f d) := by
  induction l with
  | nil => simpa only [List.mapM_nil] using tame_pure []
  | cons a l ih =>
    simp only [List.mapM_cons, List.map_cons, List.sum_cons]
    have hrest := ih fun b hb => h b (List.mem_cons_of_mem _ hb)
    exact (h a List.mem_cons_self).bind fun b => hrest.bind_last fun bs => tame_pure _

lemma tame_mapM_free {f : Nat → α → Infer β} {l : List α}
    (h : ∀ a ∈ l, Tame w m c 0 fun d => f d a) : Tame w m c 0 fun d => l.mapM (f d) :=
  (tame_mapM h).mono (by simp)

/-- A test of all items of a list. -/
lemma tame_filterM {f : Nat → α → Infer Bool} {l : List α}
    (h : ∀ a ∈ l, Tame w m c 0 fun d => f d a) : Tame w m c 0 fun d => l.filterM (f d) := by
  have hfrom (found : List α) : Tame w m c 0 fun d => l.filterAuxM (f d) found := by
    induction l generalizing found with
    | nil => exact tame_pure found
    | cons a l ih =>
      simp only [List.filterAuxM]
      exact (h a List.mem_cons_self).bind_free fun b =>
        ih (fun b hb => h b (List.mem_cons_of_mem _ hb)) _
  exact (hfrom []).bind_last fun found => tame_pure _

/-- A run that reads its context for something other than the depth. -/
lemma Tame.bind_read {f : Nat → Context → Infer α} (h : Tame w m c n fun d => f d c)
    (hf : ∀ d e, f d (c.atDepth e) = f d c) : Tame w m c n fun d => read >>= f d where
  spends d e s hs := by
    rw [exec_bind_ok exec_read, hf]
    exact h.spends d e s hs
  ends hE s hs hm hb := by
    have hb' : Bounded w.bound (fun d => f d c) c s := by
      filter_upwards [hb] with d hb
      obtain ⟨e, hb⟩ := hb
      rw [exec_bind_ok exec_read, hf] at hb
      exact ⟨e, hb⟩
    obtain ⟨out, hne, hgives⟩ := h.ends hE s hs hm hb'
    exact ⟨out, hne, hgives.bind_read hf⟩

/-- A run in a context with the same aliases, in which less remains to do or which the run gets
through in another way. -/
lemma Tame.changed {m' : Nat} {x : Nat → Infer α} {f : Context → Context}
    (h : Tame w m' (f c) n x) (hf : ∀ e, f (c.atDepth e) = (f c).atDepth e)
    (hcredit : ∀ s, (f c).credit s = c.credit s)
    (hends : w.ending → ∀ s, s.Within w.root → w.remaining c s < m → Bounded w.bound x (f c) s →
      w.remaining (f c) s < m' ∨ Halts x (f c) s) :
    Tame w m c n fun d => withReader f (x d) where
  spends d e s hs := by
    have hspends := h.spends d e s hs
    rw [exec_withReader, hf]
    exact ⟨hspends.within, hspends.grows, by simpa only [hcredit] using hspends.held,
      by simpa only [hcredit] using hspends.credit⟩
  ends hE s hs hm hb := by
    have hb' : Bounded w.bound x (f c) s := by
      filter_upwards [hb] with d hb
      obtain ⟨e, hb⟩ := hb
      rw [exec_withReader, hf] at hb
      exact ⟨e, hb⟩
    have hhalts : Halts x (f c) s := by
      rcases hends hE s hs hm hb' with hm' | hhalts
      · exact h.ends hE s hs hm' hb'
      · exact hhalts
    obtain ⟨out, hne, hgives⟩ := hhalts
    exact ⟨out, hne, hgives.changed hf⟩

/-- The store that a tame run starts from is within the bound as well. -/
lemma Tame.size_le {x : Nat → Infer α} (h : Tame w m c n x) (hs : s.Within w.root)
    (hb : Bounded w.bound x c s) : s.objects.size ≤ w.bound := by
  obtain ⟨d, e, hd⟩ := hb.exists
  exact (h.spends d e s hs).grows.size.trans hd

/-! ## Steps that use the store -/

lemma tame_objectInfo (id : Nat) : Tame w m c n fun _ => objectInfo id :=
  tame_of_exec (r := fun s => .ok ((s.objects[id]?).getD ⟨none, .known []⟩)) (fun _ _ _ => rfl)
    fun _ h => by cases h

/-- The step leaves another store, whatever the depth. -/
lemma tame_of_step {x : Nat → Infer α} {f : Store → α × Store}
    (h : ∀ d e s, (x d).exec (c.atDepth e) s = (.ok (f s).1, (f s).2))
    (hspends : ∀ s, s.Within w.root → Spends w n c s (.ok (f s).1, (f s).2)) :
    Tame w m c n x where
  spends d e s hs := by
    rw [h]
    exact hspends s hs
  ends _ s _ _ _ := ⟨(.ok (f s).1, (f s).2), by simp, .of_exec fun d e => h d e s⟩

/-- A new object costs itself and what its shape can still give. -/
lemma tame_newObject {name : Option String} {shape : Shape} (h : shape.Within w.root)
    (hn : 1 + shape.cost ≤ n) : Tame w m c n fun _ => newObject name shape := by
  refine tame_of_step (f := fun s => (.object s.objects.size,
    { s with objects := s.objects.push ⟨name, shape⟩ })) (fun _ _ _ => rfl) fun s hs => ?_
  refine ⟨fun o ho => ?_, ⟨?_, ?_⟩, fun _ => ?_, fun _ _ _ => ?_⟩
  · rw [Array.toList_push, List.mem_append, List.mem_singleton] at ho
    rcases ho with ho | rfl
    · exact hs o ho
    · exact h
  · simp
  · simp [Store.known]
  · simp [Store.held]
    omega
  · simp [Store.held, Context.credit]
    omega

end

/-! ## Known properties and names -/

namespace Store

variable {root : Node} {id : Nat}

/-- The store after the entry of an object was changed. -/
def change (s : Store) (id : Nat) (f : ObjectInfo → ObjectInfo) : Store :=
  { s with objects := s.objects.modify id f }

/-- What is changed, and what stays before and after it. -/
lemma exists_of_change (s : Store) (id : Nat) (f : ObjectInfo → ObjectInfo) :
    (s.objects[id]? = none ∧ s.change id f = s) ∨
      ∃ before o after, s.objects[id]? = some o ∧ s.objects.toList = before ++ o :: after ∧
        (s.change id f).objects.toList = before ++ f o :: after := by
  by_cases hid : id < s.objects.size
  · right
    obtain ⟨before, o, after, hlist, hlength, hmodify⟩ :=
      List.exists_of_modify f (l := s.objects.toList) (i := id) (by simpa using hid)
    refine ⟨before, o, after, ?_, hlist, by rw [change, Array.toList_modify, hmodify]⟩
    rw [← Array.getElem?_toList, hlist, ← hlength]
    simp
  · left
    refine ⟨Array.getElem?_eq_none (not_lt.1 hid), ?_⟩
    have hsame : s.objects.modify id f = s.objects := by
      rw [← Array.toList_inj, Array.toList_modify]
      exact List.modify_eq_self (by simpa using hid)
    rw [change, hsame]

lemma size_change (s : Store) (f : ObjectInfo → ObjectInfo) :
    (s.change id f).objects.size = s.objects.size := by
  simp [change]

section

variable {s : Store} {f : ObjectInfo → ObjectInfo}
  (h : ∀ o, (f o).shape = o.shape ∨ (f o).shape.isKnown = true)

include h

-- The changes of inference forget no properties and add nothing to work out.
lemma held_change_le : (s.change id f).held ≤ s.held := by
  rcases s.exists_of_change id f with ⟨-, hsame⟩ | ⟨before, o, after, -, hlist, hchange⟩
  · rw [hsame]
  · rw [held, held, hlist, hchange]
    rcases h o with hshape | hknown
    · simp [hshape]
    · simp [Shape.cost_of_isKnown hknown]

lemma grows_change : s.Grows (s.change id f) := by
  refine ⟨(size_change s f).ge, ?_⟩
  rcases s.exists_of_change id f with ⟨-, hsame⟩ | ⟨before, o, after, -, hlist, hchange⟩
  · rw [hsame]
  · rw [known, known, hlist, hchange]
    simp only [List.countP_append, List.countP_cons]
    rcases h o with hshape | hknown
    · rw [hshape]
    · rw [hknown]
      split <;> simp

lemma within_change (hs : s.Within root) : (s.change id f).Within root := by
  rcases s.exists_of_change id f with ⟨-, hsame⟩ | ⟨before, o, after, -, hlist, hchange⟩
  · rw [hsame]
    exact hs
  · intro o' ho'
    simp only [hchange, List.mem_append, List.mem_cons] at ho'
    simp only [Within, hlist, List.mem_append, List.mem_cons] at hs
    rcases ho' with ho' | rfl | ho'
    · exact hs o' (.inl ho')
    · rcases h o with hshape | hknown
      · rw [hshape]
        exact hs o (.inr (.inl rfl))
      · cases hshape : (f o).shape with
        | known ps => trivial
        | _ => rw [hshape] at hknown; cases hknown
    · exact hs o' (.inr (.inr ho'))

lemma spends_change {w : Setting} {n : Nat} {c : Context} (hs : s.Within w.root)
    (r : Except Failure Unit) : Spends w n c s (r, s.change id f) := by
  have hheld : (s.change id f).held ≤ s.held := held_change_le h
  have hcredit : c.credit (s.change id f) = c.credit s := rfl
  refine ⟨within_change h hs, grows_change h, fun _ => ?_, fun _ _ _ => ?_⟩
  · simp only
    omega
  · simp only [hcredit]
    omega

end

end Store

section

variable {w : Setting} {m n : Nat} {c : Context}

lemma tame_modifyObject (id : Nat) {f : ObjectInfo → ObjectInfo}
    (h : ∀ o, (f o).shape = o.shape ∨ (f o).shape.isKnown = true) :
    Tame w m c n fun _ => modifyObject id f :=
  tame_of_step (f := fun s => ((), s.change id f)) (fun _ _ _ => rfl) fun _ hs =>
    Store.spends_change h hs _

end

end RouteScribe.Typing
