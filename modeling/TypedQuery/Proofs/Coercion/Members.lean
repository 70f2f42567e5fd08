import Mathlib.Data.List.Forall2
import Mathlib.Data.List.Nodup
import TypedQuery.Schema.Type

/-!
# Lists and records are read member by member

Coercion reads the items of a list with `List.mapM` and the fields of an input object with
`InputObjectType.assemble`. This file says what a reading that succeeds has read, and how two
readings of the same members compare.

* `mapM_eq_ok_iff` -- a list is read if each item is, to the list of what they give;
* `Sequential` -- **a relation of outcomes that sequencing keeps**; `Sequential.pairs`,
  `Sequential.items` and `InputObjectType.assemble_related` carry it from the members to the whole;
* `Keeps`, `AgreesUpTo`, `YieldsUpTo` -- such relations: the second outcome has the value of the
  first; the first is the second or one given failure; the second is a given value or one given
  failure;
* `exists_of_assemble_eq_error`, `exists_of_assemble_eq_ok` -- a record fails to be read as one of
  its fields does, and if it is read, so are its fields;
* `assemble_dynamic` -- **a dynamic record holds the supplied fields in the order of their
  declaration**; `lookup_entries` -- each under its name;
* `assemble_typed` -- a typed record stays one of its host type.
-/

namespace TypedQuery

/-! ## 1. Items -/

section Items

variable {ε α β γ : Type}

theorem bind_eq_ok {x : Except ε α} {f : α → Except ε β} {b : β} :
    x >>= f = .ok b ↔ ∃ a, x = .ok a ∧ f a = .ok b := by
  cases x with
  | error e => simp [bind, Except.bind]
  | ok a => simp [bind, Except.bind]

theorem map_eq_ok {x : Except ε α} {f : α → β} {b : β} :
    x.map f = .ok b ↔ ∃ a, x = .ok a ∧ f a = b := by
  cases x with
  | error e => simp [Except.map]
  | ok a => simp [Except.map]

theorem bind_eq_error {x : Except ε α} {f : α → Except ε β} {e : ε} :
    x >>= f = .error e ↔ x = .error e ∨ ∃ a, x = .ok a ∧ f a = .error e := by
  cases x with
  | error e' => simp [bind, Except.bind]
  | ok a => simp [bind, Except.bind]

theorem map_eq_error {x : Except ε α} {f : α → β} {e : ε} :
    x.map f = .error e ↔ x = .error e := by
  cases x with
  | error e' => simp [Except.map]
  | ok a => simp [Except.map]

/-- **A list is read if each of its items is.** -/
theorem mapM_eq_ok_iff {f : α → Except ε β} {xs : List α} {ys : List β} :
    xs.mapM f = .ok ys ↔ List.Forall₂ (fun x y => f x = .ok y) xs ys := by
  induction xs generalizing ys with
  | nil => simp [pure, Except.pure, eq_comm]
  | cons x xs ih =>
      rw [List.mapM_cons, bind_eq_ok, List.forall₂_cons_left_iff]
      constructor
      · rintro ⟨y, hx, hrest⟩
        obtain ⟨rest, hxs, hys⟩ := bind_eq_ok.1 hrest
        cases hys
        exact ⟨y, rest, hx, ih.1 hxs, rfl⟩
      · rintro ⟨y, rest, hx, hxs, rfl⟩
        exact ⟨y, hx, bind_eq_ok.2 ⟨rest, ih.2 hxs, rfl⟩⟩

/-- What is read of a list is read of one of its items. -/
theorem exists_of_mem_mapM {f : α → Except ε β} {xs : List α} {ys : List β}
    (h : xs.mapM f = .ok ys) {y : β} (hy : y ∈ ys) : ∃ x ∈ xs, f x = .ok y := by
  have hall := mapM_eq_ok_iff.1 h
  clear h
  induction hall with
  | nil => cases hy
  | @cons x z xs zs hx _ ih =>
      rcases List.mem_cons.1 hy with rfl | hy
      · exact ⟨x, List.mem_cons_self, hx⟩
      · obtain ⟨x', hx', hf⟩ := ih hy
        exact ⟨x', List.mem_cons_of_mem _ hx', hf⟩

/-- A list is read to something if each of its items is. -/
theorem exists_mapM_eq_ok {f : α → Except ε β} {xs : List α}
    (h : ∀ x ∈ xs, ∃ y, f x = .ok y) : ∃ ys, xs.mapM f = .ok ys := by
  induction xs with
  | nil => exact ⟨[], rfl⟩
  | cons x xs ih =>
      obtain ⟨y, hy⟩ := h x List.mem_cons_self
      obtain ⟨ys, hys⟩ := ih fun z hz => h z (List.mem_cons_of_mem x hz)
      exact ⟨y :: ys, mapM_eq_ok_iff.2 (.cons hy (mapM_eq_ok_iff.1 hys))⟩

/-- Each item of a list that is read is read. -/
theorem exists_of_mapM_eq_ok {f : α → Except ε β} {xs : List α} {ys : List β}
    (h : xs.mapM f = .ok ys) {x : α} (hx : x ∈ xs) : ∃ y ∈ ys, f x = .ok y := by
  have hall := mapM_eq_ok_iff.1 h
  clear h
  induction hall with
  | nil => cases hx
  | @cons z y xs ys hz _ ih =>
      rcases List.mem_cons.1 hx with rfl | hx
      · exact ⟨y, List.mem_cons_self, hz⟩
      · obtain ⟨y', hy', hf⟩ := ih hx
        exact ⟨y', List.mem_cons_of_mem _ hy', hf⟩

/-- **A list fails to be read as the first of its items that fails.** -/
theorem mapM_eq_error_iff {f : α → Except ε β} {xs : List α} {e : ε} :
    xs.mapM f = .error e ↔ ∃ before x after, xs = before ++ x :: after ∧
      (∀ y ∈ before, ∃ z, f y = .ok z) ∧ f x = .error e := by
  induction xs with
  | nil => simp [pure, Except.pure]
  | cons x xs ih =>
      rw [List.mapM_cons, bind_eq_error]
      constructor
      · rintro (hx | ⟨z, hz, hrest⟩)
        · exact ⟨[], x, xs, rfl, by simp, hx⟩
        · obtain hxs | ⟨zs, -, hzs⟩ := bind_eq_error.1 hrest
          · obtain ⟨before, y, after, rfl, hbefore, hy⟩ := ih.1 hxs
            exact ⟨x :: before, y, after, rfl, List.forall_mem_cons.2 ⟨⟨z, hz⟩, hbefore⟩, hy⟩
          · cases hzs
      · rintro ⟨before, y, after, hsplit, hbefore, hy⟩
        rcases List.cons_eq_append_iff.1 hsplit with ⟨rfl, heq⟩ | ⟨before, rfl, rfl⟩
        · cases heq
          exact .inl hy
        · obtain ⟨⟨z, hz⟩, hrest⟩ := List.forall_mem_cons.1 hbefore
          exact .inr ⟨z, hz, bind_eq_error.2 (.inl (ih.2 ⟨before, y, after, rfl, hrest, hy⟩))⟩

/-- A list fails to be read as one of its items does. -/
theorem exists_of_mapM_eq_error {f : α → Except ε β} {xs : List α} {e : ε}
    (h : xs.mapM f = .error e) : ∃ x ∈ xs, f x = .error e := by
  obtain ⟨before, x, after, rfl, -, hx⟩ := mapM_eq_error_iff.1 h
  exact ⟨x, List.mem_append_right before List.mem_cons_self, hx⟩

/-- Two relations of one list with two others relate those. -/
theorem forall₂_transfer {R : α → β → Prop} {S : α → γ → Prop} {Q : β → γ → Prop} {xs : List α}
    {ys : List β} {zs : List γ} (hR : List.Forall₂ R xs ys) (hS : List.Forall₂ S xs zs)
    (h : ∀ x ∈ xs, ∀ y z, R x y → S x z → Q y z) : List.Forall₂ Q ys zs := by
  induction hR generalizing zs with
  | nil =>
      cases hS
      exact .nil
  | @cons x y xs ys hxy _ ih =>
      obtain ⟨z, zs, hxz, hrest, rfl⟩ := List.forall₂_cons_left_iff.1 hS
      refine .cons (h x List.mem_cons_self y z hxy hxz) (ih hrest ?_)
      exact fun w hw => h w (List.mem_cons_of_mem x hw)

end Items

/-! ## 2. Relations of outcomes -/

section Sequential

variable {ε α β : Type} {R : ∀ α : Type, Except ε α → Except ε α → Prop}

/-- **A relation of outcomes that sequencing keeps**: where the parts are related, so are the
    wholes. -/
structure Sequential (R : ∀ α : Type, Except ε α → Except ε α → Prop) : Prop where
  refl {α : Type} (x : Except ε α) : R α x x
  bind {α β : Type} {x y : Except ε α} {f g : α → Except ε β} (first : R α x y)
    (rest : ∀ a, R β (f a) (g a)) : R β (x >>= f) (y >>= g)

namespace Sequential

theorem map (hR : Sequential R) {x y : Except ε α} (h : R α x y) (f : α → β) :
    R β (x.map f) (y.map f) := by
  have hmap : ∀ z : Except ε α, z.map f = z >>= fun a => .ok (f a) := by
    intro z
    cases z <;> rfl
  rw [hmap x, hmap y]
  exact hR.bind h fun a => hR.refl _

/-- If the readings of the items of two lists are related one by one, so are those of the lists. -/
theorem pairs {γ : Type} (hR : Sequential R) {f : α → Except ε β} {g : γ → Except ε β}
    {xs : List α} {ys : List γ} (h : List.Forall₂ (fun x y => R β (f x) (g y)) xs ys) :
    R (List β) (xs.mapM f) (ys.mapM g) := by
  induction h with
  | nil => exact hR.refl _
  | cons hxy _ ih =>
      rw [List.mapM_cons, List.mapM_cons]
      exact hR.bind hxy fun b => hR.bind ih fun bs => hR.refl _

/-- If the readings of each item are related, so are those of the list. -/
theorem items (hR : Sequential R) {f g : α → Except ε β} {xs : List α}
    (h : ∀ x ∈ xs, R β (f x) (g x)) : R (List β) (xs.mapM f) (xs.mapM g) :=
  hR.pairs (List.forall₂_same.2 h)

/-- If the steps of a fold are related at each item, so are the folds. -/
theorem foldlM (hR : Sequential R) {f g : β → α → Except ε β} {xs : List α}
    (h : ∀ x ∈ xs, ∀ b, R β (f b x) (g b x)) (start : β) :
    R β (xs.foldlM f start) (xs.foldlM g start) := by
  induction xs generalizing start with
  | nil => exact hR.refl _
  | cons x xs ih =>
      rw [List.foldlM_cons, List.foldlM_cons]
      refine hR.bind (h x List.mem_cons_self start) fun middle => ?_
      exact ih (fun y hy => h y (List.mem_cons_of_mem x hy)) middle

end Sequential

/-- Equality is such a relation. -/
theorem sequential_eq : Sequential fun α => @Eq (Except ε α) where
  refl _ := rfl
  bind hx hf := by
    subst hx
    exact congrArg _ (funext hf)

/-- **The second outcome keeps the value of the first**, if there is one. -/
def Keeps (x y : Except ε α) : Prop := ∀ a, x = .ok a → y = .ok a

theorem sequential_keeps : Sequential fun α => @Keeps ε α where
  refl _ _ h := h
  bind hx hf b h := by
    obtain ⟨a, ha, hb⟩ := bind_eq_ok.1 h
    exact bind_eq_ok.2 ⟨a, hx a ha, hf a b hb⟩

/-- **One outcome is the other, up to the failure**: it is the same, or else the failure. -/
def AgreesUpTo (e : ε) (outcome other : Except ε α) : Prop :=
  outcome = other ∨ outcome = .error e

/-- Where the outcome is a value, so is the other. -/
theorem AgreesUpTo.keeps {e : ε} {x y : Except ε α} (h : AgreesUpTo e x y) : Keeps x y := by
  intro a hx
  subst hx
  obtain h | h := h
  · exact h.symm
  · cases h

theorem sequential_agreesUpTo (e : ε) : Sequential fun α => @AgreesUpTo ε α e where
  refl _ := .inl rfl
  bind {_ _ x _ f g} hx hf := by
    obtain rfl | rfl := hx
    · cases x with
      | error e' => exact .inl rfl
      | ok a => exact hf a
    · exact .inr rfl

end Sequential

section YieldsUpTo

variable {ε α β γ : Type} {e : ε}

/-- **The outcome is the value, up to the failure**: it is the one or the other. -/
def YieldsUpTo (e : ε) (outcome : Except ε α) (value : α) : Prop :=
  outcome = .ok value ∨ outcome = .error e

theorem YieldsUpTo.bind {x : Except ε α} {f : α → Except ε β} {a : α} {b : β}
    (hx : YieldsUpTo e x a) (hf : YieldsUpTo e (f a) b) : YieldsUpTo e (x >>= f) b := by
  obtain rfl | rfl := hx
  · exact hf
  · exact .inr rfl

/-- The second outcome yields the value of the first, if there is one. -/
theorem sequential_yieldsUpTo (e : ε) :
    Sequential fun α (x y : Except ε α) => ∀ a, x = .ok a → YieldsUpTo e y a where
  refl _ _ h := .inl h
  bind hx hf b h := by
    obtain ⟨a, ha, hb⟩ := bind_eq_ok.1 h
    exact (hx a ha).bind (hf a b hb)

theorem YieldsUpTo.map {x : Except ε α} {a : α} (hx : YieldsUpTo e x a) (f : α → β) :
    YieldsUpTo e (x.map f) (f a) := by
  obtain rfl | rfl := hx
  · exact .inl rfl
  · exact .inr rfl

/-- If each item yields its value up to the failure, so does the list. -/
theorem YieldsUpTo.items {f : α → Except ε β} {xs : List α} {ys : List β}
    (h : List.Forall₂ (fun x y => YieldsUpTo e (f x) y) xs ys) :
    YieldsUpTo e (xs.mapM f) ys := by
  induction h with
  | nil => exact .inl rfl
  | cons hx _ ih =>
      rw [List.mapM_cons]
      exact hx.bind (ih.bind (.inl rfl))

end YieldsUpTo

/-! ## 3. Fields -/

/-- **The records of a shape**: those that assigning makes of the fresh one. -/
inductive HostRecord.IsOf : RecordShape → HostRecord → Prop
  | dynamic {entries : List (String × Coerced)} : IsOf .dynamic (.dynamic entries)
  | typed {host : HostType} {members : List Member} {setters : List (String × Member)}
      {held : List (String × HostValue)} :
      IsOf (.typed host members setters) (.typed host held)

theorem HostRecord.IsOf.fresh (shape : RecordShape) : shape.fresh.IsOf shape := by
  cases shape with
  | dynamic => exact .dynamic
  | typed host members setters => exact .typed

theorem HostRecord.IsOf.host_eq {shape : RecordShape} {record : HostRecord}
    (h : record.IsOf shape) : record.host = shape.host := by
  cases h <;> rfl

namespace InputObjectType

variable {o : InputObjectType} {read : InputField → Except ResolutionError (Option Coerced)}

/-- Reads one field into a record. -/
def readInto (o : InputObjectType) (read : InputField → Except ResolutionError (Option Coerced))
    (record : HostRecord) (f : InputField) : Except ResolutionError HostRecord := do
  match ← read f with
  | some value => o.assign f record value
  | none => return record

theorem assemble_eq (o : InputObjectType)
    (read : InputField → Except ResolutionError (Option Coerced)) :
    o.assemble read =
      (o.fields.foldlM (o.readInto read) o.record.fresh).map o.finish := by
  show (o.fields.foldlM (o.readInto read) o.record.fresh >>= fun record =>
    .ok (o.finish record)) = _
  cases o.fields.foldlM (o.readInto read) o.record.fresh <;> rfl

/-- Assigning leaves a record of its shape. -/
theorem isOf_assign {f : InputField} {shape : RecordShape} {record record' : HostRecord}
    {value : Coerced} (hrecord : record.IsOf shape) (h : o.assign f record value = .ok record') :
    record'.IsOf shape := by
  unfold assign at h
  split at h
  · cases h
  · cases hrecord with
    | dynamic =>
        cases h
        exact .dynamic
    | typed =>
        dsimp only at h
        split at h
        · obtain ⟨held, -, rfl⟩ := map_eq_ok.1 h
          exact .typed
        · cases h
          exact .typed

/-- So does reading a field. -/
theorem isOf_readInto {f : InputField} {shape : RecordShape} {record record' : HostRecord}
    (hrecord : record.IsOf shape) (h : o.readInto read record f = .ok record') :
    record'.IsOf shape := by
  obtain ⟨found, -, hassign⟩ := bind_eq_ok.1 h
  cases found with
  | none =>
      cases hassign
      exact hrecord
  | some value => exact isOf_assign hrecord hassign

theorem isOf_foldlM {fields : List InputField} {shape : RecordShape} {start record : HostRecord}
    (hstart : start.IsOf shape) (h : fields.foldlM (o.readInto read) start = .ok record) :
    record.IsOf shape := by
  induction fields generalizing start with
  | nil =>
      cases h
      exact hstart
  | cons f rest ih =>
      rw [List.foldlM_cons] at h
      obtain ⟨middle, hf, hrest⟩ := bind_eq_ok.1 h
      exact ih (isOf_readInto hstart hf) hrest

/-- **A record fails to be read** as a field does, or as what is read for a field fails to be
    assigned to a record of the shape. -/
theorem exists_of_assemble_eq_error {e : ResolutionError} (h : o.assemble read = .error e) :
    ∃ f ∈ o.fields, read f = .error e ∨
      ∃ record value, record.IsOf o.record ∧ read f = .ok (some value) ∧
        o.assign f record value = .error e := by
  rw [assemble_eq, map_eq_error] at h
  have hstart : o.record.fresh.IsOf o.record := .fresh o.record
  generalize o.record.fresh = start at h hstart
  generalize o.fields = fields at h ⊢
  induction fields generalizing start with
  | nil => cases h
  | cons f rest ih =>
      rw [List.foldlM_cons] at h
      obtain hf | ⟨middle, hmiddle, hrest⟩ := bind_eq_error.1 h
      · refine ⟨f, List.mem_cons_self, ?_⟩
        obtain hread | ⟨found, hread, hassign⟩ := bind_eq_error.1 hf
        · exact .inl hread
        · cases found with
          | none => cases hassign
          | some value => exact .inr ⟨start, value, hstart, hread, hassign⟩
      · obtain ⟨g, hg, hcause⟩ := ih middle (isOf_readInto hstart hmiddle) hrest
        exact ⟨g, List.mem_cons_of_mem _ hg, hcause⟩

/-- **If a record is read, each of its fields is.** -/
theorem exists_of_assemble_eq_ok {value : Coerced} (h : o.assemble read = .ok value)
    {f : InputField} (hf : f ∈ o.fields) : ∃ found, read f = .ok found := by
  rw [assemble_eq, map_eq_ok] at h
  obtain ⟨record, hfold, -⟩ := h
  generalize o.record.fresh = start at hfold
  generalize o.fields = fields at hf hfold
  induction fields generalizing start with
  | nil => cases hf
  | cons g rest ih =>
      rw [List.foldlM_cons] at hfold
      obtain ⟨middle, hg, hrest⟩ := bind_eq_ok.1 hfold
      rcases List.mem_cons.1 hf with rfl | hf
      · obtain ⟨found, hread, -⟩ := bind_eq_ok.1 hg
        exact ⟨found, hread⟩
      · exact ih middle hf hrest

/-- **If the readings of each field are related, so are those of the record.** -/
theorem assemble_related
    {R : ∀ α : Type, Except ResolutionError α → Except ResolutionError α → Prop}
    (hR : Sequential R) {read' : InputField → Except ResolutionError (Option Coerced)}
    (h : ∀ f ∈ o.fields, R (Option Coerced) (read f) (read' f)) :
    R Coerced (o.assemble read) (o.assemble read') := by
  rw [assemble_eq, assemble_eq]
  refine hR.map (hR.foldlM (fun f hf record => ?_) o.record.fresh) o.finish
  exact hR.bind (h f hf) fun found => hR.refl _

/-- The entry that a field gives, if it is supplied and read. -/
def entryOf (read : InputField → Except ResolutionError (Option Coerced)) (f : InputField) :
    Option (String × Coerced) :=
  match read f with
  | .ok (some value) => some (f.name, value)
  | _ => none

theorem entryOf_eq_some {f : InputField} {key : String} {value : Coerced} :
    entryOf read f = some (key, value) ↔ f.name = key ∧ read f = .ok (some value) := by
  unfold entryOf
  split <;> simp_all

/-- A field is read into a dynamic record as one more entry at the end. -/
theorem readInto_dynamic (hd : o.record = .dynamic) {entries : List (String × Coerced)}
    {f : InputField} {record : HostRecord} (hnew : f.name ∉ Entries.names entries)
    (h : o.readInto read (.dynamic entries) f = .ok record) :
    record = .dynamic (entries ++ (entryOf read f).toList) := by
  obtain ⟨found, hread, hassign⟩ := bind_eq_ok.1 h
  cases found with
  | none =>
      cases hassign
      simp [entryOf, hread]
  | some value =>
      simp only [assign, HostRecord.host, RecordShape.host, hd, ne_eq, not_true_eq_false,
        if_false, Entries.put_of_not_mem hnew] at hassign
      cases hassign
      simp [entryOf, hread]

theorem foldlM_readInto_dynamic (hd : o.record = .dynamic) {fields : List InputField}
    {entries : List (String × Coerced)} {record : HostRecord}
    (hdistinct : (fields.map (·.name)).Nodup)
    (hnew : ∀ f ∈ fields, f.name ∉ Entries.names entries)
    (h : fields.foldlM (o.readInto read) (.dynamic entries) = .ok record) :
    record = .dynamic (entries ++ fields.filterMap (entryOf read)) := by
  induction fields generalizing entries with
  | nil =>
      cases h
      simp
  | cons f rest ih =>
      rw [List.foldlM_cons] at h
      obtain ⟨middle, hf, hrest⟩ := bind_eq_ok.1 h
      have hmiddle := readInto_dynamic hd (hnew f List.mem_cons_self) hf
      subst hmiddle
      simp only [List.map_cons, List.nodup_cons] at hdistinct
      -- the entry of `f` has the name of `f`, which no later field has
      have hnew' : ∀ g ∈ rest,
          g.name ∉ Entries.names (entries ++ (entryOf read f).toList) := by
        intro g hg hmem
        rw [Entries.names, List.map_append, List.mem_append] at hmem
        rcases hmem with hmem | hmem
        · exact hnew g (List.mem_cons_of_mem _ hg) hmem
        · obtain ⟨⟨key, value⟩, hentry, hkey⟩ := List.mem_map.1 hmem
          have hname := (entryOf_eq_some.1 (Option.mem_toList.1 hentry)).1
          have : g.name = f.name := hkey.symm.trans hname.symm
          exact hdistinct.1 (this ▸ List.mem_map_of_mem hg)
      rw [ih hdistinct.2 hnew' hrest]
      cases hentry : entryOf read f <;> simp [hentry]

/-- **A dynamic record holds the supplied fields in the order of their declaration.** -/
theorem assemble_dynamic (hd : o.record = .dynamic) (hdistinct : (o.fields.map (·.name)).Nodup)
    {value : Coerced} (h : o.assemble read = .ok value) :
    value = .object o.name (.dynamic (o.fields.filterMap (entryOf read))) := by
  rw [assemble_eq, map_eq_ok] at h
  obtain ⟨record, hfold, rfl⟩ := h
  rw [hd] at hfold
  rw [foldlM_readInto_dynamic hd hdistinct (by simp) hfold]
  rfl

/-- The entries of a dynamic record are a part of the declared fields, in their order. -/
theorem names_entries_sublist
    (read : InputField → Except ResolutionError (Option Coerced)) (fields : List InputField) :
    (Entries.names (fields.filterMap (entryOf read))).Sublist (fields.map (·.name)) := by
  induction fields with
  | nil => simp
  | cons f rest ih =>
      cases hentry : entryOf read f with
      | none =>
          simp only [List.filterMap_cons, hentry, List.map_cons]
          exact ih.cons _
      | some p =>
          obtain ⟨key, value⟩ := p
          obtain ⟨hname, -⟩ := entryOf_eq_some.1 hentry
          subst hname
          simp only [List.filterMap_cons, hentry, List.map_cons, Entries.names_cons]
          exact ih.cons_cons _

/-- Under the name of a field a dynamic record holds what is read for the field. -/
theorem lookup_entries {fields : List InputField} (hdistinct : (fields.map (·.name)).Nodup)
    {f : InputField} (hf : f ∈ fields) {found : Option Coerced} (h : read f = .ok found) :
    (fields.filterMap (entryOf read)).lookup f.name = found := by
  refine Option.ext fun value => ⟨fun hvalue => ?_, ?_⟩
  · obtain ⟨g, hg, hentry⟩ := List.mem_filterMap.1 (Entries.mem_of_lookup hvalue)
    obtain ⟨hname, hread⟩ := entryOf_eq_some.1 hentry
    obtain rfl : g = f := List.inj_on_of_nodup_map hdistinct hg hf hname
    exact Except.ok.inj (h.symm.trans hread)
  · rintro rfl
    refine Entries.lookup_of_mem ((names_entries_sublist read fields).nodup hdistinct) ?_
    exact List.mem_filterMap.2 ⟨f, hf, entryOf_eq_some.2 ⟨rfl, h⟩⟩

/-- A dynamic record takes whatever is read, so it is read if its fields are. -/
theorem exists_assemble_dynamic (hd : o.record = .dynamic)
    (h : ∀ f ∈ o.fields, ∃ found, read f = .ok found) : ∃ value, o.assemble read = .ok value := by
  cases hread : o.assemble read with
  | ok value => exact ⟨value, rfl⟩
  | error e =>
      obtain ⟨f, hf, hfail | ⟨record, value, hrecord, -, hassign⟩⟩ :=
        exists_of_assemble_eq_error hread
      · obtain ⟨found, hfound⟩ := h f hf
        cases hfail.symm.trans hfound
      · rw [hd] at hrecord
        cases hrecord with
        | dynamic =>
            simp only [assign, HostRecord.host, RecordShape.host, hd, ne_eq, not_true_eq_false,
              if_false] at hassign
            cases hassign

/-- **A typed record stays one of its host type.** -/
theorem assemble_typed {host : HostType} {members : List Member}
    {setters : List (String × Member)} (ht : o.record = .typed host members setters)
    {value : Coerced} (h : o.assemble read = .ok value) :
    ∃ held, value = .object o.name (.typed host held) := by
  rw [assemble_eq, map_eq_ok] at h
  obtain ⟨record, hfold, rfl⟩ := h
  have hrecord := isOf_foldlM (.fresh o.record) hfold
  rw [ht] at hrecord
  cases hrecord with
  | typed => exact ⟨_, rfl⟩

end InputObjectType

end TypedQuery
