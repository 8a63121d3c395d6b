import Mathlib.Data.List.Nodup
import Mathlib.Logic.Function.Basic

/-! # `NET_LIST_ENTRY` — the doubly linked lists of the UDP IO port

    `UdpIo->SentDatagram` is a circular doubly linked list threaded through the `Link`
    field of every `UDP_TX_TOKEN` it holds.  The model keeps the links as memory: two
    functions giving every entry's `ForwardLink` and `BackLink`.  `NetListInit`,
    `NetListInsertHead` and `NetListRemoveEntry`, which the source uses but does not define,
    are the usual unlink and relink, store by store.

    What a list holds is the segment predicate `Seg`: from an entry, the forward links pass
    through a list of entries to a last one, and the back links retrace them.  `IsList`
    closes the segment into a ring at the head.

    * `isList_netListInsertHead`: inserting a fresh entry at the head gives the ring with
      the entry in front;
    * `isList_netListRemoveEntry`: unlinking any entry gives the ring without it, whatever
      its neighbours. -/

namespace NetList

/-- The `ForwardLink` and `BackLink` fields of every `NET_LIST_ENTRY` in memory. -/
structure Links (α : Type) where
  forwardLink : α → α
  backLink : α → α

variable {α : Type}

/-! ## Segments and rings -/

/-- `Seg l x es y`: the forward links from `x` pass through `es` and reach `y`, and the back
    links retrace them. -/
def Seg (l : Links α) : α → List α → α → Prop
  | x, [], y => l.forwardLink x = y ∧ l.backLink y = x
  | x, e :: es, y => l.forwardLink x = e ∧ l.backLink e = x ∧ Seg l e es y

/-- `IsList l head es`: the list at `head` holds the entries `es`, in order, each once. -/
def IsList (l : Links α) (head : α) (es : List α) : Prop :=
  (head :: es).Nodup ∧ Seg l head es head

instance Seg.decidable [DecidableEq α] (l : Links α) : ∀ x es y, Decidable (Seg l x es y)
  | _, [], _ => inferInstanceAs (Decidable (_ ∧ _))
  | _, e :: es, y =>
    have := Seg.decidable l e es y
    inferInstanceAs (Decidable (_ ∧ _ ∧ _))

instance IsList.decidable [DecidableEq α] (l : Links α) (head : α) (es : List α) :
    Decidable (IsList l head es) :=
  inferInstanceAs (Decidable (_ ∧ _))

/-- A segment splits at any entry it passes. -/
theorem seg_append (l : Links α) (x y m : α) (fs : List α) :
    ∀ es : List α, Seg l x (es ++ m :: fs) y ↔ Seg l x es m ∧ Seg l m fs y
  | [] => by simp only [List.nil_append, Seg, and_assoc]
  | e :: es => by
    rw [List.cons_append]; simp only [Seg, seg_append l e y m fs es, and_assoc]

/-- The first forward link of a segment. -/
theorem Seg.forwardLink_eq {l : Links α} {x y : α} :
    ∀ {es : List α}, Seg l x es y → l.forwardLink x = (es ++ [y]).head (by simp)
  | [], h => h.1
  | _ :: _, h => h.1

/-- A segment only reads the forward links of `x :: es` and the back links of `es ++ [y]`. -/
theorem Seg.congr {l l' : Links α} {y : α} :
    ∀ {x : α} {es : List α}, Seg l x es y →
      (∀ z ∈ x :: es, l'.forwardLink z = l.forwardLink z) →
      (∀ z ∈ es ++ [y], l'.backLink z = l.backLink z) → Seg l' x es y
  | x, [], h, hf, hb => by
    simp only [Seg, hf x (List.mem_singleton_self _), hb y (by simp)]; exact h
  | x, e :: es, h, hf, hb => by
    obtain ⟨h1, h2, h3⟩ := h
    refine ⟨(hf x (by simp)).trans h1, (hb e (by simp)).trans h2, h3.congr ?_ ?_⟩
    · exact fun z hz => hf z (List.mem_cons_of_mem _ hz)
    · exact fun z hz => hb z (List.mem_cons_of_mem _ hz)

/-- The forward links of a segment stay in it. -/
theorem Seg.forwardLink_mem {l : Links α} {y : α} :
    ∀ {x : α} {es : List α}, Seg l x es y → ∀ z ∈ x :: es, l.forwardLink z ∈ es ++ [y]
  | _, [], h, z, hz => by rw [List.mem_singleton.1 hz, h.1]; simp
  | _, _ :: _, h, z, hz => by
    rcases List.mem_cons.1 hz with rfl | hz
    · rw [h.1]; simp
    · exact List.mem_cons_of_mem _ (h.2.2.forwardLink_mem z hz)

/-- So do its back links. -/
theorem Seg.backLink_mem {l : Links α} {y : α} :
    ∀ {x : α} {es : List α}, Seg l x es y → ∀ z ∈ es ++ [y], l.backLink z ∈ x :: es
  | _, [], h, z, hz => by rw [List.mem_singleton.1 hz, h.2]; simp
  | _, _ :: _, h, z, hz => by
    rcases List.mem_cons.1 hz with rfl | hz
    · rw [h.2.1]; simp
    · exact List.mem_cons_of_mem _ (h.2.2.backLink_mem z hz)

/-- The neighbours of an entry of a list are in the list. -/
theorem IsList.links_mem {l : Links α} {head z : α} {es : List α} (h : IsList l head es)
    (hz : z ∈ head :: es) : l.forwardLink z ∈ head :: es ∧ l.backLink z ∈ head :: es := by
  have hsub : ∀ w ∈ es ++ [head], w ∈ head :: es := by simp +contextual [or_comm]
  refine ⟨hsub _ (h.2.forwardLink_mem z hz), h.2.backLink_mem z (?_)⟩
  rcases List.mem_cons.1 hz with rfl | hz <;> simp [hz]

/-- The entry after `e` in a list: the next one, or the head after the last. -/
theorem IsList.forwardLink_eq {l : Links α} {head e : α} {xs ys : List α}
    (h : IsList l head (xs ++ e :: ys)) : l.forwardLink e = (ys ++ [head]).head (by simp) :=
  ((seg_append l head head e ys xs).1 h.2).2.forwardLink_eq

/-- The forward links from `x` reach `y` through one list only, when `y` is not on it. -/
theorem Seg.unique {l : Links α} {y : α} :
    ∀ {x : α} {es es' : List α}, Seg l x es y → Seg l x es' y → y ∉ es → y ∉ es' → es = es'
  | _, [], [], _, _, _, _ => rfl
  | _, [], _ :: _, h, h', _, hy' => absurd (h'.1.symm.trans h.1 ▸ List.mem_cons_self _ _) hy'
  | _, _ :: _, [], h, h', hy, _ => absurd (h.1.symm.trans h'.1 ▸ List.mem_cons_self _ _) hy
  | _, e :: _, _ :: _, h, h', hy, hy' => by
    obtain rfl : e = _ := h.1.symm.trans h'.1
    rw [Seg.unique h.2.2 h'.2.2 (fun h => hy (List.mem_cons_of_mem _ h))
      (fun h => hy' (List.mem_cons_of_mem _ h))]

/-- **A ring determines its entries**: the list at `head` is read off the links. -/
theorem IsList.unique {l : Links α} {head : α} {es es' : List α} (h : IsList l head es)
    (h' : IsList l head es') : es = es' :=
  h.2.unique h'.2 (List.nodup_cons.1 h.1).1 (List.nodup_cons.1 h'.1).1

/-! ## The list operations -/

variable [DecidableEq α]

/-- `NetListInit (Entry)`: both links of `Entry` at itself. -/
def netListInit (l : Links α) (e : α) : Links α :=
  ⟨Function.update l.forwardLink e e, Function.update l.backLink e e⟩

/-- `NetListInsertHead (Head, Entry)`: `Entry->ForwardLink = Head->ForwardLink;
    Entry->BackLink = Head; Entry->ForwardLink->BackLink = Entry; Head->ForwardLink = Entry`. -/
def netListInsertHead (l : Links α) (head e : α) : Links α :=
  let forwardLink := Function.update l.forwardLink e (l.forwardLink head)
  let backLink := Function.update l.backLink e head
  ⟨Function.update forwardLink head e, Function.update backLink (forwardLink e) e⟩

/-- `NetListRemoveEntry (Entry)`: `Entry->ForwardLink->BackLink = Entry->BackLink;
    Entry->BackLink->ForwardLink = Entry->ForwardLink`.  `Entry`'s own links are left as
    they were. -/
def netListRemoveEntry (l : Links α) (e : α) : Links α :=
  let backLink := Function.update l.backLink (l.forwardLink e) (l.backLink e)
  ⟨Function.update l.forwardLink (backLink e) (l.forwardLink e), backLink⟩

@[simp] theorem netListInit_forwardLink (l : Links α) (e z : α) :
    (netListInit l e).forwardLink z = if z = e then e else l.forwardLink z :=
  Function.update_apply _ _ _ _

@[simp] theorem netListInit_backLink (l : Links α) (e z : α) :
    (netListInit l e).backLink z = if z = e then e else l.backLink z :=
  Function.update_apply _ _ _ _

/-- Unlinking an entry that links only to itself changes nothing. -/
theorem netListRemoveEntry_self {l : Links α} {e : α} (hf : l.forwardLink e = e)
    (hb : l.backLink e = e) : netListRemoveEntry l e = l := by
  obtain ⟨f, b⟩ := l
  change f e = e at hf
  change b e = e at hb
  show Links.mk (Function.update f (Function.update b (f e) (b e) e) (f e))
    (Function.update b (f e) (b e)) = ⟨f, b⟩
  rw [hf, hb, Function.update_same, Function.update_eq_self_iff.2 hf.symm,
    Function.update_eq_self_iff.2 hb.symm]

theorem netListInsertHead_forwardLink (l : Links α) (head e z : α) :
    (netListInsertHead l head e).forwardLink z =
      if z = head then e else if z = e then l.forwardLink head else l.forwardLink z := by
  simp only [netListInsertHead, Function.update_apply]

theorem netListInsertHead_backLink (l : Links α) (head e z : α) :
    (netListInsertHead l head e).backLink z =
      if z = l.forwardLink head then e else if z = e then head else l.backLink z := by
  simp only [netListInsertHead, Function.update_apply, if_true]

/-- Unlinking `e` from between `a` and `b` links `a` to `b` and changes nothing else. -/
theorem netListRemoveEntry_eq {l : Links α} {a e b : α} (ha : l.backLink e = a)
    (hb : l.forwardLink e = b) (heb : e ≠ b) :
    netListRemoveEntry l e =
      ⟨Function.update l.forwardLink a b, Function.update l.backLink b a⟩ := by
  subst ha hb
  simp only [netListRemoveEntry, Function.update_noteq heb]

/-- `NetListRemoveEntry` leaves the links of `Entry` itself as they were. -/
theorem netListRemoveEntry_links_self (l : Links α) (e : α) :
    (netListRemoveEntry l e).forwardLink e = l.forwardLink e ∧
      (netListRemoveEntry l e).backLink e = l.backLink e := by
  simp only [netListRemoveEntry, Function.update_apply, ite_self, and_self]

/-! ## The list operations keep the ring -/

/-- `NetListInit` of an entry off a list leaves the list. -/
theorem isList_netListInit_of_not_mem {l : Links α} {head e : α} {es : List α}
    (h : IsList l head es) (he : e ∉ head :: es) : IsList (netListInit l e) head es := by
  refine ⟨h.1, h.2.congr (fun z hz => ?_) (fun z hz => ?_)⟩
  · simp [show z ≠ e from fun h => he (h ▸ hz)]
  · simp [show z ≠ e from fun h' => he (by rw [← h']; simpa [or_comm] using hz)]

/-- `NetListInit` makes an empty list. -/
theorem isList_netListInit (l : Links α) (head : α) : IsList (netListInit l head) head [] :=
  ⟨List.nodup_singleton _, by simp [Seg, netListInit]⟩

/-- **Insert at the head**: a fresh entry goes in front. -/
theorem isList_netListInsertHead {l : Links α} {head e : α} {es : List α}
    (h : IsList l head es) (he : e ∉ head :: es) :
    IsList (netListInsertHead l head e) head (e :: es) := by
  obtain ⟨hnd, hs⟩ := h
  have heh : e ≠ head := fun h => he (h ▸ List.mem_cons_self _ _)
  have hes : e ∉ es := fun h => he (List.mem_cons_of_mem _ h)
  have hnd' := List.nodup_cons.1 hnd
  refine ⟨List.nodup_cons.2 ⟨by simp [Ne.symm heh, hnd'.1], List.nodup_cons.2 ⟨hes, hnd'.2⟩⟩, ?_⟩
  rcases es with _ | ⟨a, es⟩
  · obtain ⟨h1, -⟩ := hs
    simp [Seg, netListInsertHead_forwardLink, netListInsertHead_backLink, heh, h1]
  · obtain ⟨rfl, -, h3⟩ := hs
    have hea : e ≠ l.forwardLink head := fun h => hes (h ▸ List.mem_cons_self _ _)
    have hnd'' := List.nodup_cons.1 hnd'.2
    refine ⟨by simp [netListInsertHead_forwardLink], by simp [netListInsertHead_backLink, hea],
      by simp [netListInsertHead_forwardLink, heh], by simp [netListInsertHead_backLink],
      h3.congr (fun z hz => ?_) (fun z hz => ?_)⟩
    · have hzh : z ≠ head := fun h => hnd'.1 (h ▸ hz)
      have hze : z ≠ e := fun h => hes (h ▸ hz)
      simp [netListInsertHead_forwardLink, hzh, hze]
    · have hza : z ≠ l.forwardLink head := by
        rintro rfl
        rcases List.mem_append.1 hz with hz | hz
        · exact hnd''.1 hz
        · exact hnd'.1 (List.mem_cons.2 (.inl (List.mem_singleton.1 hz).symm))
      have hze : z ≠ e := by
        rintro rfl
        rcases List.mem_append.1 hz with hz | hz
        · exact hes (List.mem_cons_of_mem _ hz)
        · exact heh (List.mem_singleton.1 hz)
      simp [netListInsertHead_backLink, hza, hze]

/-- Linking `a` straight to the entry after `e` gives a segment from `a` over the rest. -/
theorem seg_bypass {l : Links α} {e y a : α} {ys : List α} (hs : Seg l e ys y)
    (ha : a ∉ ys) (hnd : (ys ++ [y]).Nodup) :
    Seg ⟨Function.update l.forwardLink a ((ys ++ [y]).head (by simp)),
      Function.update l.backLink ((ys ++ [y]).head (by simp)) a⟩ a ys y := by
  rcases ys with _ | ⟨c, ys⟩
  · simp [Seg]
  · obtain ⟨-, -, h3⟩ := hs
    have hc := (List.nodup_cons.1 hnd).1
    refine ⟨by simp, by simp, h3.congr (fun z hz => ?_) (fun z hz => ?_)⟩
    · have : z ≠ a := fun h => ha (h ▸ hz)
      simp [Function.update_noteq this]
    · have : z ≠ c := fun h => hc (h ▸ hz)
      simp [Function.update_noteq this]

/-- **Unlink**: removing an entry from the ring leaves the others, in order. -/
theorem isList_netListRemoveEntry {l : Links α} {head e : α} {xs ys : List α}
    (h : IsList l head (xs ++ e :: ys)) : IsList (netListRemoveEntry l e) head (xs ++ ys) := by
  obtain ⟨hnd, hs⟩ := h
  obtain ⟨hxs, hys⟩ := (seg_append l head head e ys xs).1 hs
  rw [← List.cons_append, List.nodup_middle] at hnd
  obtain ⟨he, hnd⟩ := List.nodup_cons.1 hnd
  have hyn : (ys ++ [head]).Nodup := List.nodup_append_comm.1
    (hnd.sublist ((List.sublist_append_right xs ys).cons₂ head))
  have heb : e ≠ (ys ++ [head]).head (by simp) := by
    rintro rfl; apply he; rcases ys with _ | ⟨c, ys⟩ <;> simp
  rcases List.eq_nil_or_concat xs with rfl | ⟨xs', a, rfl⟩
  · rw [netListRemoveEntry_eq hxs.2 hys.forwardLink_eq heb]
    exact ⟨hnd, seg_bypass hys (List.nodup_cons.1 hnd).1 hyn⟩
  · rw [List.concat_eq_append] at hnd he hxs ⊢
    obtain ⟨hxs', hae⟩ := (seg_append l head e a [] xs').1 hxs
    rw [netListRemoveEntry_eq hae.2 hys.forwardLink_eq heb]
    refine ⟨hnd, ?_⟩
    rw [List.append_assoc, List.singleton_append, seg_append]
    obtain ⟨hpre, -, hdis⟩ := List.nodup_append.1 hnd
    have hz : ∀ z ∈ xs' ++ [a], z ∉ ys ∧ z ≠ head := fun z hz =>
      ⟨hdis (List.mem_cons_of_mem _ hz), fun h => (List.nodup_cons.1 hpre).1 (h ▸ hz)⟩
    refine ⟨hxs'.congr (fun z hz => ?_) (fun z hz' => ?_), seg_bypass hys (hz a (by simp)).1 hyn⟩
    · have hza : z ≠ a := by
        rw [← List.cons_append] at hpre
        exact fun h => List.disjoint_of_nodup_append hpre hz (h ▸ List.mem_singleton_self _)
      simp [Function.update_noteq hza]
    · have hzb : z ≠ (ys ++ [head]).head (by simp) := by
        intro h
        rcases List.mem_append.1 (h ▸ List.head_mem _) with hy | hy
        · exact (hz z hz').1 hy
        · exact (hz z hz').2 (List.mem_singleton.1 hy)
      simp [Function.update_noteq hzb]

end NetList
