/-
Only the order of the accesses that are kept matters.

Two states of replacers that track the same frames, with the same flags and histories of the same
lengths, and whose histories are ordered alike, cannot be told apart by what comes later:

* `time?` — the time at a position of the history of a frame;
* `SameOrder` — the states are ordered alike, whatever the times themselves are;
* `SameOrder.recent_eq`, `SameOrder.aged_eq`, `SameOrder.victim_eq` — then their pools are in the
  same order and have the same victim;
* `SameOrder.course` — an operation has the same outcome in both, and leaves them ordered alike;
* `order_alone_matters` — **what was accessed before, and when, shows only in the order of the times
  that are kept; a replacer that tracks no frame is as good as a new one**.

Design notes: nothing is asked of the pools.  In a sound state they are determined by the records,
since a history has as many times as its frame had accesses until there are `k` of them, and so
says which pool its frame is in.
-/
import StorageKit.Proofs.Policy
import Mathlib.Data.List.Sort

namespace StorageKit

/-- Where a time of a history comes from when one more time is noted. -/
theorem FrameRecord.getElem?_history_touch (f : FrameRecord) (k t i : Nat) :
    (f.touch k t).history[i]? =
      (f.history ++ [t])[i + if k < f.history.length + 1 then 1 else 0]? := by
  show (if k < (f.history ++ [t]).length then _ else _ : List Nat)[i]? = _
  rw [List.length_append, List.length_singleton]
  split
  · rw [List.getElem?_tail]
  · rfl

theorem FrameRecord.length_touch (f : FrameRecord) (k t : Nat) :
    (f.touch k t).history.length =
      if k < f.history.length + 1 then f.history.length else f.history.length + 1 := by
  show (if k < (f.history ++ [t]).length then _ else _ : List Nat).length = _
  rw [List.length_append, List.length_singleton]
  split
  · rw [List.length_tail, List.length_append, List.length_singleton, Nat.add_sub_cancel]
  · rw [List.length_append, List.length_singleton]

/-- Two lists of frames with the same frames in them are the same list if each is in the order of
the times it goes by, and these times are ordered alike. -/
theorem frames_eq_of_order {l l' : List Nat} {time time' : Nat → Nat}
    (hl : l.Pairwise fun a b => time a < time b) (hl' : l'.Pairwise fun a b => time' a < time' b)
    (hmem : ∀ n, n ∈ l ↔ n ∈ l')
    (horder : ∀ a ∈ l, ∀ b ∈ l, (time a < time b ↔ time' a < time' b)) : l = l' := by
  have hirrefl : Std.Irrefl fun a b => time' a < time' b := ⟨fun _ => lt_irrefl _⟩
  have hantisymm : Std.Antisymm fun a b => time' a < time' b :=
    ⟨fun _ _ h h' => absurd h' h.not_gt⟩
  have hsorted : l.Pairwise fun a b => time' a < time' b :=
    hl.imp_of_mem fun ha hb h => (horder _ ha _ hb).mp h
  exact hsorted.eq_of_mem_iff hl' hmem

namespace Replacer

variable {r r' r₁ r₁' : Replacer} {m n i j : Nat}

/-- The time at a position of the history of a frame, if the frame is tracked. -/
def time? (r : Replacer) (n i : Nat) : Option Nat := (r.record? n).bind fun f => f.history[i]?

/-- Two states with the same frames, flags and lengths of histories, and histories that are ordered
alike: of any two times in one of them, the one is before the other exactly if that is so of the
times at the same positions in the other. -/
structure SameOrder (r r' : Replacer) : Prop where
  settings_eq : r.settings = r'.settings
  evictable_eq : ∀ n, (r.record? n).map (·.evictable) = (r'.record? n).map (·.evictable)
  length_eq : ∀ n, (r.record? n).map (·.history.length) = (r'.record? n).map (·.history.length)
  lt_iff : ∀ {m n i j a b a' b'}, r.time? m i = some a → r.time? n j = some b →
    r'.time? m i = some a' → r'.time? n j = some b' → (a < b ↔ a' < b')

/-- Times at the same position of the two states. -/
def Matched (r r' : Replacer) (a a' : Nat) : Prop :=
  ∃ n i, r.time? n i = some a ∧ r'.time? n i = some a'

theorem Histories.time_le_clock (hh : Histories r) {a : Nat} (ha : r.time? n i = some a) :
    a ≤ r.clock := by
  obtain ⟨f, hf, hi⟩ := Option.bind_eq_some_iff.mp ha
  exact hh.le_clock hf a (List.mem_of_getElem? hi)

/-- States are ordered alike if the times in one are those in the other, moved by a strictly
increasing map. -/
theorem sameOrder_of_strictMono {move : Nat → Nat} (hmove : StrictMono move)
    (hsettings : r.settings = r'.settings)
    (hrecord : ∀ n, (r'.record? n).map (fun f => (f.evictable, f.history)) =
      (r.record? n).map fun f => (f.evictable, f.history.map move)) : SameOrder r r' := by
  have hcases : ∀ n, (r.record? n = none ∧ r'.record? n = none) ∨ ∃ f f', r.record? n = some f ∧
      r'.record? n = some f' ∧ f'.evictable = f.evictable ∧ f'.history = f.history.map move := by
    intro n
    have hn := hrecord n
    cases hf : r.record? n with
    | none =>
      rw [hf, Option.map_none, Option.map_eq_none_iff] at hn
      exact Or.inl ⟨rfl, hn⟩
    | some f =>
      rw [hf, Option.map_some] at hn
      obtain ⟨f', hf', heq⟩ := Option.map_eq_some_iff.mp hn
      exact Or.inr ⟨f, f', rfl, hf', congrArg Prod.fst heq, congrArg Prod.snd heq⟩
  have htime : ∀ n i, r'.time? n i = (r.time? n i).map move := by
    intro n i
    rw [time?, time?]
    rcases hcases n with ⟨hn, hn'⟩ | ⟨f, f', hf, hf', -, hhistory⟩
    · rw [hn, hn']
      rfl
    · rw [hf, hf', Option.bind_some, Option.bind_some, hhistory, List.getElem?_map]
  refine ⟨hsettings, fun n => ?_, fun n => ?_, fun {m n i j a b a' b'} ha hb ha' hb' => ?_⟩
  · rcases hcases n with ⟨hn, hn'⟩ | ⟨f, f', hf, hf', hflag, -⟩
    · rw [hn, hn']
    · rw [hf, hf', Option.map_some, Option.map_some, hflag]
  · rcases hcases n with ⟨hn, hn'⟩ | ⟨f, f', hf, hf', -, hhistory⟩
    · rw [hn, hn']
    · rw [hf, hf', Option.map_some, Option.map_some, hhistory, List.length_map]
  · rw [htime, ha, Option.map_some] at ha'
    rw [htime, hb, Option.map_some] at hb'
    rw [← Option.some.inj ha', ← Option.some.inj hb']
    exact hmove.lt_iff_lt.symm

namespace SameOrder

theorem lt_iff_of_matched (h : SameOrder r r') {a a' b b' : Nat} (ha : Matched r r' a a')
    (hb : Matched r r' b b') : a < b ↔ a' < b' := by
  obtain ⟨m, i, ha, ha'⟩ := ha
  obtain ⟨n, j, hb, hb'⟩ := hb
  exact h.lt_iff ha hb ha' hb'

/-- A frame is tracked in both states or in neither. -/
theorem record?_cases (h : SameOrder r r') (n : Nat) :
    (r.record? n = none ∧ r'.record? n = none) ∨
    ∃ f f', r.record? n = some f ∧ r'.record? n = some f' ∧ f.evictable = f'.evictable ∧
      f.history.length = f'.history.length := by
  have hflag := h.evictable_eq n
  have hlength := h.length_eq n
  cases hf : r.record? n with
  | none =>
    rw [hf, Option.map_none] at hflag
    exact Or.inl ⟨rfl, Option.map_eq_none_iff.mp hflag.symm⟩
  | some f =>
    rw [hf, Option.map_some] at hflag hlength
    obtain ⟨f', hf', heq⟩ := Option.map_eq_some_iff.mp hflag.symm
    rw [hf', Option.map_some] at hlength
    exact Or.inr ⟨f, f', rfl, hf', heq.symm, Option.some.inj hlength⟩

theorem isEvictable_eq (h : SameOrder r r') : r.isEvictable = r'.isEvictable := by
  funext n
  rcases h.record?_cases n with ⟨hn, hn'⟩ | ⟨f, f', hf, hf', hflag, -⟩
  · rw [isEvictable_of_untracked hn, isEvictable_of_untracked hn']
  · rw [isEvictable_of_record? hf, isEvictable_of_record? hf', hflag]

theorem frame?_eq (h : SameOrder r r') (x : Number) : r.frame? x = r'.frame? x := by
  rw [frame?, frame?, h.settings_eq]

/-! ### What shows of a state -/

section

variable (h : SameOrder r r') (hs : Sound r) (hs' : Sound r')
include h hs hs'

theorem size_eq : r.evictableCount = r'.evictableCount := by
  have hset : r.evictables = r'.evictables := by
    ext n
    rw [mem_evictables, mem_evictables, h.isEvictable_eq]
  rw [hs.size_eq, hs'.size_eq, hset]

/-- The count of the accesses to a frame is the same below `k`, and above `k` it may be any. -/
theorem accessCount_lt_iff {f f' : FrameRecord} (hf : r.record? n = some f)
    (hf' : r'.record? n = some f') (hlength : f.history.length = f'.history.length) :
    f.accessCount < r.settings.k ↔ f'.accessCount < r'.settings.k := by
  have hcount := hs.histories.length_eq hf
  have hcount' := hs'.histories.length_eq hf'
  rw [h.settings_eq] at hcount ⊢
  omega

/-- Pools that list the frames of a kind, which is the same kind in both states, are in the same
order. -/
theorem frames_eq {kind kind' : FrameRecord → Prop} {entries entries' : List (Nat × Nat)}
    (hl : Lists r.record? kind entries) (hl' : Lists r'.record? kind' entries')
    (hkind : ∀ {n f f'}, r.record? n = some f → r'.record? n = some f' →
      f.history.length = f'.history.length → (kind f ↔ kind' f')) :
    entries.map Prod.fst = entries'.map Prod.fst := by
  have htime : ∀ {r : Replacer} {kind entries}, Lists r.record? kind entries →
      ∀ n t, (n, t) ∈ entries → (r.time? n 0).getD 0 = t := by
    intro r kind entries hl n t hn
    obtain ⟨f, hf, -, ht⟩ := (hl.mem_iff n t).mp hn
    rw [time?, hf, Option.bind_some, ← List.head?_eq_getElem?, ht, Option.getD_some]
  have hmem : ∀ n, n ∈ entries.map Prod.fst ↔ ∃ f, r.record? n = some f ∧ kind f := fun n =>
    hl.mem_frames fun f hf => hs.histories.exists_head? hf
  have hmem' : ∀ n, n ∈ entries'.map Prod.fst ↔ ∃ f, r'.record? n = some f ∧ kind' f := fun n =>
    hl'.mem_frames fun f hf => hs'.histories.exists_head? hf
  refine frames_eq_of_order (hl.pairwise_frames (htime hl)) (hl'.pairwise_frames (htime hl'))
    (fun n => ?_) fun a ha b hb => ?_
  · rw [hmem, hmem']
    rcases h.record?_cases n with ⟨hn, hn'⟩ | ⟨f, f', hf, hf', -, hlength⟩
    · rw [hn, hn']
      exact iff_of_false nofun nofun
    · rw [hf, hf']
      constructor
      · rintro ⟨g, hg, hk⟩
        exact ⟨f', rfl, (hkind hf hf' hlength).mp (Option.some.inj hg ▸ hk)⟩
      · rintro ⟨g, hg, hk⟩
        exact ⟨f, rfl, (hkind hf hf' hlength).mpr (Option.some.inj hg ▸ hk)⟩
  · -- a listed frame has an earliest time in both states
    have hfirst : ∀ n ∈ entries.map Prod.fst, ∃ t t', r.time? n 0 = some t ∧
        r'.time? n 0 = some t' := by
      intro n hn
      obtain ⟨f, hf, -⟩ := (hmem n).mp hn
      rcases h.record?_cases n with ⟨hn, -⟩ | ⟨g, g', hg, hg', -⟩
      · rw [hn] at hf
        cases hf
      · obtain ⟨t, ht⟩ := hs.histories.exists_head? hg
        obtain ⟨t', ht'⟩ := hs'.histories.exists_head? hg'
        rw [List.head?_eq_getElem?] at ht ht'
        exact ⟨t, t', by rw [time?, hg, Option.bind_some, ht],
          by rw [time?, hg', Option.bind_some, ht']⟩
    obtain ⟨t, t', ht, ht'⟩ := hfirst a ha
    obtain ⟨u, u', hu, hu'⟩ := hfirst b hb
    rw [ht, ht', hu, hu']
    exact h.lt_iff ht hu ht' hu'

theorem recent_eq : r.recent.frames = r'.recent.frames :=
  h.frames_eq hs hs' hs.recent hs'.recent fun hf hf' hlength =>
    h.accessCount_lt_iff hs hs' hf hf' hlength

theorem aged_eq : r.aged.frames = r'.aged.frames := by
  refine h.frames_eq hs hs' hs.aged hs'.aged fun hf hf' hlength => ?_
  rw [← not_lt, ← not_lt, h.accessCount_lt_iff hs hs' hf hf' hlength]

theorem victim_eq : r.nextVictim.map FrameRef.index = r'.nextVictim.map FrameRef.index := by
  rw [index_nextVictim, index_nextVictim, h.recent_eq hs hs', h.aged_eq hs hs',
    h.size_eq hs hs', h.isEvictable_eq]

theorem isFull_eq : r.isFull = r'.isFull := by
  rw [isFull, isFull, h.settings_eq, h.size_eq hs hs']

end

/-! ### Steps -/

section

variable {x x' : Option FrameRecord}

/-- States stay ordered alike when the record of one frame changes in both, if every time in the new
records was there before or is the time of an access just noted. -/
theorem update (h : SameOrder r r') (hh : Histories r) (hh' : Histories r')
    (hrecord : r₁.record? = Function.update r.record? n x)
    (hrecord' : r₁'.record? = Function.update r'.record? n x')
    (hsettings : r₁.settings = r.settings) (hsettings' : r₁'.settings = r'.settings)
    (hflag : x.map (·.evictable) = x'.map (·.evictable))
    (hlength : x.map (·.history.length) = x'.map (·.history.length))
    (htimes : ∀ (i : Nat) (a a' : Nat), (x.bind fun f => f.history[i]?) = some a →
      (x'.bind fun f => f.history[i]?) = some a' →
      Matched r r' a a' ∨ a = r.clock + 1 ∧ a' = r'.clock + 1) :
    SameOrder r₁ r₁' := by
  -- a time is matched with the one it was matched with before, unless both are new
  have hmatched : ∀ {m i a a'}, r₁.time? m i = some a → r₁'.time? m i = some a' →
      Matched r r' a a' ∨ a = r.clock + 1 ∧ a' = r'.clock + 1 := by
    intro m i a a' ha ha'
    rw [time?, hrecord] at ha
    rw [time?, hrecord'] at ha'
    by_cases hm : m = n
    · rw [hm, Function.update_self] at ha ha'
      exact htimes i a a' ha ha'
    · rw [Function.update_of_ne hm] at ha ha'
      exact Or.inl ⟨m, i, ha, ha'⟩
  have hold : ∀ {a a'}, Matched r r' a a' → a ≤ r.clock ∧ a' ≤ r'.clock := by
    rintro a a' ⟨m, i, ha, ha'⟩
    exact ⟨hh.time_le_clock ha, hh'.time_le_clock ha'⟩
  refine ⟨?_, fun m => ?_, fun m => ?_, fun ha hb ha' hb' => ?_⟩
  · rw [hsettings, hsettings', h.settings_eq]
  · rw [hrecord, hrecord']
    by_cases hm : m = n
    · rw [hm, Function.update_self, Function.update_self, hflag]
    · rw [Function.update_of_ne hm, Function.update_of_ne hm, h.evictable_eq]
  · rw [hrecord, hrecord']
    by_cases hm : m = n
    · rw [hm, Function.update_self, Function.update_self, hlength]
    · rw [Function.update_of_ne hm, Function.update_of_ne hm, h.length_eq]
  · rcases hmatched ha ha' with ha | ⟨rfl, rfl⟩ <;> rcases hmatched hb hb' with hb | ⟨rfl, rfl⟩
    · exact h.lt_iff_of_matched ha hb
    · have := hold ha
      omega
    · have := hold hb
      omega
    · exact iff_of_false (lt_irrefl _) (lt_irrefl _)

/-- A change of a flag, the same in both states. -/
theorem adjust (h : SameOrder r r') (hh : Histories r) (hh' : Histories r')
    {change : FrameRecord → FrameRecord}
    (hrecord : r₁.record? = Function.update r.record? n ((r.record? n).map change))
    (hrecord' : r₁'.record? = Function.update r'.record? n ((r'.record? n).map change))
    (hsettings : r₁.settings = r.settings) (hsettings' : r₁'.settings = r'.settings)
    (hhistory : ∀ f, (change f).history = f.history)
    (hflag : ∀ f f', f.evictable = f'.evictable → (change f).evictable = (change f').evictable) :
    SameOrder r₁ r₁' := by
  refine h.update hh hh' hrecord hrecord' hsettings hsettings' ?_ ?_ fun i a a' ha ha' => ?_
  · rcases h.record?_cases n with ⟨hn, hn'⟩ | ⟨f, f', hf, hf', heq, -⟩
    · rw [hn, hn', Option.map_none, Option.map_none]
    · rw [hf, hf']
      exact congrArg some (hflag f f' heq)
  · rw [Option.map_map, Option.map_map]
    simp only [Function.comp_def, hhistory]
    exact h.length_eq n
  · rw [Option.bind_map] at ha ha'
    simp only [Function.comp_def, hhistory] at ha ha'
    exact Or.inl ⟨n, i, ha, ha'⟩

theorem forget (h : SameOrder r r') (hh : Histories r) (hh' : Histories r') (n : Nat) :
    SameOrder (forget n r) (Replacer.forget n r') :=
  h.update hh hh' (record?_forget n r) (record?_forget n r') rfl rfl rfl rfl
    fun _ _ _ ha => nomatch ha

theorem pin (h : SameOrder r r') (hh : Histories r) (hh' : Histories r') (n : Nat) :
    SameOrder (pin n r) (Replacer.pin n r') :=
  h.adjust hh hh' (record?_pin n r) (record?_pin n r') rfl rfl (fun _ => rfl) fun _ _ _ => rfl

theorem unpin (h : SameOrder r r') (hh : Histories r) (hh' : Histories r') (n : Nat) :
    SameOrder (unpin n r) (Replacer.unpin n r') :=
  h.adjust hh hh' (record?_unpin n r) (record?_unpin n r') rfl rfl (fun _ => rfl) fun _ _ _ => rfl

/-- The times of a frame after an access: those that are still kept, at the same positions in both
states, and the new one. -/
theorem matched_touch {f f' : FrameRecord} {a a' : Nat} (hf : r.record? n = some f)
    (hf' : r'.record? n = some f') (hlength : f.history.length = f'.history.length) (k : Nat)
    (ha : (f.touch k (r.clock + 1)).history[i]? = some a)
    (ha' : (f'.touch k (r'.clock + 1)).history[i]? = some a') :
    Matched r r' a a' ∨ a = r.clock + 1 ∧ a' = r'.clock + 1 := by
  rw [FrameRecord.getElem?_history_touch] at ha ha'
  rw [← hlength] at ha'
  generalize i + (if k < f.history.length + 1 then 1 else 0) = j at ha ha'
  by_cases hj : j < f.history.length
  · rw [List.getElem?_append_left hj] at ha
    rw [List.getElem?_append_left (hlength ▸ hj)] at ha'
    exact Or.inl ⟨n, j, by rw [time?, hf, Option.bind_some, ha],
      by rw [time?, hf', Option.bind_some, ha']⟩
  · rw [List.getElem?_append_right (not_lt.mp hj)] at ha
    rw [List.getElem?_append_right (hlength ▸ not_lt.mp hj)] at ha'
    exact Or.inr ⟨(List.mem_singleton.mp (List.mem_of_getElem? ha)),
      (List.mem_singleton.mp (List.mem_of_getElem? ha'))⟩

section

variable (h : SameOrder r r') (hs : Sound r) (hs' : Sound r')
include h hs hs'

theorem withoutVictim : SameOrder r.withoutVictim r'.withoutVictim := by
  have hvictim := h.victim_eq hs hs'
  rw [Replacer.withoutVictim, Replacer.withoutVictim]
  cases hv : r.nextVictim with
  | none =>
    rw [hv, Option.map_none, eq_comm, Option.map_eq_none_iff] at hvictim
    rw [hvictim]
    exact h
  | some victim =>
    rw [hv, Option.map_some] at hvictim
    obtain ⟨victim', hv', heq⟩ := Option.map_eq_some_iff.mp hvictim.symm
    rw [hv']
    dsimp only
    rw [heq]
    exact h.forget hs.histories hs'.histories victim.index

theorem withRoom : SameOrder r.withRoom r'.withRoom := by
  rw [Replacer.withRoom, Replacer.withRoom, h.isFull_eq hs hs']
  split
  · exact h.withoutVictim hs hs'
  · exact h

theorem accessed (f : FrameRef) : SameOrder (accessed f r) (Replacer.accessed f r') := by
  rcases h.record?_cases f.index with ⟨hn, hn'⟩ | ⟨g, g', hg, hg', hflag, hlength⟩
  · -- room is made first, and then both states hold one time of the frame
    rw [accessed_of_untracked f hn, accessed_of_untracked f hn']
    have hroom := h.withRoom hs hs'
    have huntracked := (record?_withRoom (isEvictable_of_untracked hn)).trans hn
    have huntracked' := (record?_withRoom (isEvictable_of_untracked hn')).trans hn'
    obtain ⟨signed, hrecord⟩ := exists_record?_admitted f huntracked
    obtain ⟨signed', hrecord'⟩ := exists_record?_admitted f huntracked'
    have hsettings : ∀ r : Replacer, (admitted f r).settings = r.settings := by
      intro r
      rw [admitted]
      split <;> rfl
    refine hroom.update hs.withRoom.1.histories hs'.withRoom.1.histories hrecord hrecord'
      (hsettings _) (hsettings _) rfl rfl fun i a a' ha ha' => ?_
    exact Or.inr ⟨List.mem_singleton.mp (List.mem_of_getElem? ha),
      List.mem_singleton.mp (List.mem_of_getElem? ha')⟩
  · obtain ⟨signed, hrecord⟩ := exists_record?_accessed f hg (hs.histories.accessed hg)
    obtain ⟨signed', hrecord'⟩ := exists_record?_accessed f hg' (hs'.histories.accessed hg')
    have hsettings : ∀ {r : Replacer} {g}, r.record? f.index = some g → 0 < g.accessCount →
        (Replacer.accessed f r).settings = r.settings := by
      intro r g hg hpos
      rw [accessed_of_tracked f hg hpos]
      split <;> rfl
    refine h.update hs.histories hs'.histories hrecord hrecord'
      (hsettings hg (hs.histories.accessed hg)) (hsettings hg' (hs'.histories.accessed hg'))
      (congrArg some hflag) ?_ fun i a a' ha ha' => ?_
    · show some (g.touch r.settings.k (r.clock + 1)).history.length =
        some (g'.touch r'.settings.k (r'.clock + 1)).history.length
      rw [FrameRecord.length_touch, FrameRecord.length_touch, hlength, h.settings_eq]
    · rw [← h.settings_eq] at ha'
      exact matched_touch hg hg' hlength r.settings.k ha ha'

/-- **An operation has the same outcome in states that are ordered alike, and leaves them ordered
alike.** -/
theorem course (op : Operation) :
    (course op r).outcome = (Replacer.course op r').outcome ∧
      SameOrder (course op r).final (Replacer.course op r').final := by
  have honFrame : ∀ {x : Number} {c c' : FrameRef → Course},
      (∀ f, (c f).outcome = (c' f).outcome ∧ SameOrder (c f).final (c' f).final) →
      (onFrame x r c).outcome = (onFrame x r' c').outcome ∧
        SameOrder (onFrame x r c).final (onFrame x r' c').final := by
    intro x c c' hc
    rw [onFrame, onFrame, h.frame?_eq x, h.settings_eq]
    cases r'.frame? x with
    | none => exact ⟨rfl, h⟩
    | some f => exact hc f
  cases op with
  | access x kind => exact honFrame fun f => ⟨rfl, h.accessed hs hs' f⟩
  | evict =>
    refine ⟨?_, h.withoutVictim hs hs'⟩
    exact congrArg (fun victim => Except.ok (Answer.victim victim)) (h.victim_eq hs hs')
  | setEvictable x evictable =>
    refine honFrame fun f => ?_
    rcases h.record?_cases f.index with ⟨hn, hn'⟩ | ⟨g, g', hg, hg', hflag, -⟩
    · rw [hn, hn']
      exact ⟨rfl, h⟩
    · rw [hg, hg']
      dsimp only
      rw [← hflag]
      by_cases hsame : g.evictable = evictable
      · rw [if_pos hsame, if_pos hsame]
        exact ⟨rfl, h⟩
      · rw [if_neg hsame, if_neg hsame]
        cases evictable with
        | true => exact ⟨rfl, (h.withRoom hs hs').unpin hs.withRoom.1.histories
            hs'.withRoom.1.histories f.index⟩
        | false => exact ⟨rfl, h.pin hs.histories hs'.histories f.index⟩
  | remove x =>
    refine honFrame fun f => ?_
    rcases h.record?_cases f.index with ⟨hn, hn'⟩ | ⟨g, g', hg, hg', hflag, -⟩
    · rw [hn, hn']
      exact ⟨rfl, h⟩
    · rw [hg, hg']
      dsimp only
      rw [← hflag]
      by_cases he : g.evictable = true
      · rw [if_pos he, if_pos he]
        exact ⟨rfl, h.forget hs.histories hs'.histories f.index⟩
      · rw [if_neg he, if_neg he]
        exact ⟨rfl, h⟩
  | size =>
    exact ⟨congrArg (fun size => Except.ok (Answer.size size)) (h.size_eq hs hs'), h⟩

end

end

end SameOrder

/-! ### Runs -/

section

variable {σ τ : Type} {logger : Logger σ} {logger' : Logger τ} {s : Observed σ} {s' : Observed τ}

/-- From the two states, whatever operations follow have the same outcomes one by one, and after
them as many frames may be evicted and both pools are in the same order. -/
def BehaveAlike (logger : Logger σ) (s : Observed σ) (logger' : Logger τ) (s' : Observed τ) :
    Prop :=
  ∀ ops, (runAll logger ops s).1 = (runAll logger' ops s').1 ∧
    (runAll logger ops s).2.replacer.evictableCount =
      (runAll logger' ops s').2.replacer.evictableCount ∧
    (runAll logger ops s).2.replacer.recent.frames =
      (runAll logger' ops s').2.replacer.recent.frames ∧
    (runAll logger ops s).2.replacer.aged.frames =
      (runAll logger' ops s').2.replacer.aged.frames

theorem SameOrder.behaveAlike (hl : logger.Steady) (hl' : logger'.Steady)
    (hfree : s.replacer.latch = .free) (hfree' : s'.replacer.latch = .free)
    (hs : Sound s.replacer) (hs' : Sound s'.replacer) (h : SameOrder s.replacer s'.replacer) :
    BehaveAlike logger s logger' s' := by
  intro ops
  induction ops generalizing s s' with
  | nil => exact ⟨rfl, h.size_eq hs hs', h.recent_eq hs hs', h.aged_eq hs hs'⟩
  | cons op rest ih =>
    -- one operation, which follows its course to the end on both sides
    obtain ⟨houtcome, hfinal⟩ := h.course hs hs' op
    obtain ⟨hanswer, hnext⟩ := run_of_steady hl op hfree
    obtain ⟨hanswer', hnext'⟩ := run_of_steady hl' op hfree'
    obtain ⟨hanswers, hlast⟩ := ih (latch_run logger op hfree) (latch_run logger' op hfree')
      (hnext ▸ hs.course op) (hnext' ▸ hs'.course op) (hnext ▸ hnext' ▸ hfinal)
    rw [runAll_cons, runAll_cons, hanswer, hanswer', houtcome, hanswers]
    exact ⟨rfl, hlast⟩

/-- **Only the order of the accesses that are kept matters.**  States that runs reach with loggers
that do not fail, and that are ordered alike, behave alike ever after; and a state without tracked
frames behaves like a new replacer. -/
theorem order_alone_matters (hl : logger.Steady) (hl' : logger'.Steady)
    (settings settings' : Settings) (memory : σ) (memory' : τ) (ops ops' : List Operation)
    (hs : s = (runAll logger ops ⟨new settings, memory⟩).2)
    (hs' : s' = (runAll logger' ops' ⟨new settings', memory'⟩).2) :
    (SameOrder s.replacer s'.replacer → BehaveAlike logger s logger' s') ∧
      ((∀ n, s.replacer.record? n = none) →
        BehaveAlike logger s logger' ⟨new settings, memory'⟩) := by
  have hsound := (runAll_represents hl ops (s := ⟨new settings, memory⟩) (sound_new settings)
    (represents_new settings) rfl).2.2
  have hsound' := (runAll_represents hl' ops' (s := ⟨new settings', memory'⟩) (sound_new settings')
    (represents_new settings') rfl).2.2
  have hfree := latch_runAll logger ops (s := ⟨new settings, memory⟩) rfl
  have hfree' := latch_runAll logger' ops' (s := ⟨new settings', memory'⟩) rfl
  rw [← hs] at hsound hfree
  rw [← hs'] at hsound' hfree'
  refine ⟨fun h => h.behaveAlike hl hl' hfree hfree' hsound hsound', fun huntracked => ?_⟩
  have hsettings := (kept_settings settings).runAll logger ops (s := ⟨new settings, memory⟩) rfl rfl
  rw [← hs] at hsettings
  have halike : SameOrder s.replacer (new settings) := by
    refine sameOrder_of_strictMono strictMono_id hsettings fun n => ?_
    rw [huntracked n]
    rfl
  exact halike.behaveAlike hl hl' hfree rfl hsound (sound_new settings)

/-- Two replacers with different pasts: in one of them another frame came and went, and a frame was
accessed once more than shows.  And a third one, in which nothing is left of two accesses. -/
theorem order_alone_matters_after_detour :
    let settings : Settings := ⟨2, 2, by decide, by decide⟩
    let s : Observed Nat := (runAll Logger.asking
      [.access (.ofNat 1) .scan, .access (.ofNat 2) .scan, .access (.ofNat 1) .scan]
      ⟨new settings, 0⟩).2
    let s' : Observed Nat := (runAll Logger.asking
      [.access (.ofNat 0) .scan, .remove (.ofNat 0), .access (.ofNat 1) .scan,
        .access (.ofNat 1) .scan, .access (.ofNat 2) .scan, .access (.ofNat 1) .scan]
      ⟨new settings, 0⟩).2
    let left : Observed Nat := (runAll Logger.asking
      [.access (.ofNat 1) .scan, .access (.ofNat 1) .scan, .remove (.ofNat 1)] ⟨new settings, 0⟩).2
    Logger.asking.Steady ∧
    s.replacer.records = [(1, ⟨[1, 3], 2, true, false⟩), (2, ⟨[2], 1, true, false⟩)] ∧
    s'.replacer.records = [(1, ⟨[3, 5], 3, true, false⟩), (2, ⟨[4], 1, true, false⟩)] ∧
    SameOrder s.replacer s'.replacer ∧
    BehaveAlike Logger.asking s Logger.asking s' ∧
    left.replacer.clock = 2 ∧ left.replacer.records = [] ∧
    BehaveAlike Logger.asking left Logger.asking ⟨new settings, 0⟩ := by
  intro settings s s' left
  have hrecords : s.replacer.records =
      [(1, ⟨[1, 3], 2, true, false⟩), (2, ⟨[2], 1, true, false⟩)] := by decide
  have hrecords' : s'.replacer.records =
      [(1, ⟨[3, 5], 3, true, false⟩), (2, ⟨[4], 1, true, false⟩)] := by decide
  have hsettings : ∀ ops, (runAll Logger.asking ops ⟨new settings, 0⟩).2.replacer.settings =
      settings := fun ops => (kept_settings settings).runAll Logger.asking ops rfl rfl
  have halike : SameOrder s.replacer s'.replacer := by
    -- every time is later by two
    refine sameOrder_of_strictMono (fun a b h => Nat.add_lt_add_right h 2)
      ((hsettings _).trans (hsettings _).symm) fun n => ?_
    rw [record?, record?, hrecords, hrecords', Keyed.get?_cons, Keyed.get?_cons, Keyed.get?_cons,
      Keyed.get?_cons]
    split
    · rfl
    · split <;> rfl
  have hleft : left.replacer.records = [] := by decide
  refine ⟨Logger.steady_asking, hrecords, hrecords', halike, ?_, by decide, hleft, ?_⟩
  · exact (order_alone_matters Logger.steady_asking Logger.steady_asking settings settings 0 0 _ _
      rfl rfl).1 halike
  · refine (order_alone_matters Logger.steady_asking Logger.steady_asking settings settings 0 0 _ []
      (s := left) rfl rfl).2 fun n => ?_
    rw [record?, hleft, Keyed.get?_nil]

end

end Replacer
end StorageKit
