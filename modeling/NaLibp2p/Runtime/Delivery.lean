import NaLibp2p.Runtime.Writer

/-! What a writer's streams deliver.

A stream of a writer carries whole messages and then at most one piece of one
more, whatever fails (`framing_integrity`); a receiver therefore dispatches only
messages that were submitted, unaltered and in order. What the retry costs is
said by `delivery_bound`: an attempt whose write failed after the stream had
taken the whole message can be delivered beside the attempt that succeeded. -/
namespace NaLibp2p.Runtime
open Framing Protocol

section Bytes
variable {μ : Type}

/-! ### The bytes of a stream -/

/-- The stream took the whole message. -/
def Write.whole (code : μ → List UInt8) (x : Write μ) : Bool :=
  decide (x.outcome.taken (code x.msg) = code x.msg)

theorem Write.whole_of_ok (code : μ → List UInt8) {x : Write μ} (h : x.outcome = .ok) :
    x.whole code = true := by
  simp [Write.whole, h, WriteOutcome.taken]

theorem accepted_whole (code : μ → List UInt8) {s : List (Write μ)} (h : ∀ x ∈ s, x.whole code = true) :
    accepted code s = (s.map Write.msg).flatMap code := by
  unfold accepted
  rw [List.flatMap_map]
  apply List.flatMap_congr
  intro x hx
  simpa [Write.whole] using h x hx

theorem accepted_clean (code : μ → List UInt8) {s : List (Write μ)} (h : ∀ x ∈ s, x.outcome = .ok) :
    accepted code s = (s.map Write.msg).flatMap code :=
  accepted_whole code fun x hx => x.whole_of_ok code (h x hx)

theorem taken_prefixes (o : WriteOutcome) (buf : List UInt8) : o.taken buf <+: buf := by
  cases o with
  | ok => exact List.prefix_refl buf
  | writeAllErr n => exact List.take_prefix n buf
  | flushErr => exact List.prefix_refl buf

/-- A sound stream took whole messages and at most one piece of a further one. -/
theorem Sound.bytes {s : List (Write μ)} (h : Sound s) (code : μ → List UInt8) :
    ∃ done last, s.map Write.msg = done ++ last ∧ last.length ≤ 1 ∧
      ∃ tail, accepted code s = done.flatMap code ++ tail ∧ tail <+: last.flatMap code := by
  obtain ⟨done, last, rfl, hdone, hlast⟩ := h
  refine ⟨done.map Write.msg, last.map Write.msg, by simp, by simpa using hlast,
    accepted code last, ?_, ?_⟩
  · rw [← accepted_clean code hdone]
    simp [accepted]
  · match last, hlast with
    | [], _ => exact List.prefix_refl []
    | [x], _ =>
      simp only [accepted, List.flatMap_cons, List.flatMap_nil, List.append_nil, List.map_cons,
        List.map_nil]
      exact taken_prefixes x.outcome (code x.msg)

/-- A successful write lies on its stream after whole messages. -/
theorem Sound.whole {s : List (Write μ)} (h : Sound s) (code : μ → List UInt8) {x : Write μ}
    (hx : x ∈ s) (hok : x.outcome = .ok) :
    ∃ (done : List μ) (rest : List UInt8), done.Sublist (s.map Write.msg) ∧
      accepted code s = done.flatMap code ++ (code x.msg ++ rest) := by
  obtain ⟨before, after, rfl⟩ := List.append_of_mem hx
  obtain ⟨done, last, heq, hdone, hlast⟩ := h
  have hclean : ∀ y ∈ before, y.outcome = .ok := by
    intro y hy
    have hlen : before.length < done.length + last.length := by
      have := congrArg List.length heq
      simp only [List.length_append, List.length_cons] at this
      omega
    have hpre : before <+: done := by
      have hbefore : before <+: done ++ last := heq ▸ List.prefix_append ..
      exact List.prefix_of_prefix_length_le hbefore (List.prefix_append ..) (by omega)
    exact hdone y (hpre.subset hy)
  refine ⟨before.map Write.msg, accepted code after, ?_, ?_⟩
  · rw [List.map_append]
    exact List.sublist_append_left ..
  · rw [← accepted_clean code hclean]
    simp [accepted, hok, WriteOutcome.taken]

/-- A failed write is the last on its stream. -/
theorem Sound.failed_last {s before after : List (Write μ)} {x : Write μ} (h : Sound s)
    (heq : s = before ++ x :: after) (hx : x.outcome ≠ .ok) : after = [] := by
  obtain ⟨done, last, hs, hdone, hlast⟩ := h
  have hlen := congrArg List.length (heq.symm.trans hs)
  simp only [List.length_append, List.length_cons] at hlen
  by_cases hin : before.length < done.length
  · exfalso
    have hpre : before ++ [x] <+: done := by
      have hbefore : before ++ [x] <+: s := ⟨after, by rw [heq]; simp⟩
      have hdone' : done <+: s := hs ▸ List.prefix_append ..
      refine List.prefix_of_prefix_length_le hbefore hdone' ?_
      rw [List.length_append, List.length_singleton]
      exact hin
    exact hx (hdone x (hpre.subset (by simp)))
  · exact List.length_eq_zero_iff.mp (by omega)

/-- What a sound stream took is a first part of the bytes of its messages. -/
theorem Sound.accepted_prefixes {s : List (Write μ)} (h : Sound s) (code : μ → List UInt8) :
    accepted code s <+: (s.map Write.msg).flatMap code := by
  obtain ⟨done, last, hmsgs, -, tail, hbytes, htail⟩ := h.bytes code
  rw [hmsgs, hbytes, List.flatMap_append, List.prefix_append_right_inj]
  exact htail

/-- The writes a sound stream took whole are its first ones. -/
theorem Sound.filter_whole {s : List (Write μ)} (h : Sound s) (code : μ → List UInt8) :
    s.filter (Write.whole code) <+: s := by
  obtain ⟨done, last, rfl, hdone, hlast⟩ := h
  rw [List.filter_append, List.filter_eq_self.mpr fun x hx => Write.whole_of_ok code (hdone x hx),
    List.prefix_append_right_inj]
  match last, hlast with
  | [], _ => exact List.prefix_refl _
  | [x], _ => cases hx : x.whole code <;> simp [hx]

/-- They are all that lies inside what it took. -/
theorem Sound.fit_accepted {s : List (Write μ)} (h : Sound s) (code : μ → List UInt8) :
    fit code (s.map Write.msg) (accepted code s).length = (s.filter (Write.whole code)).length := by
  obtain ⟨rest, hrest⟩ := h.filter_whole code
  have hwhole := accepted_whole code fun x (hx : x ∈ s.filter (Write.whole code)) => (List.mem_filter.mp hx).2
  have hbytes : accepted code s = accepted code (s.filter (Write.whole code)) ++ accepted code rest := by
    conv_lhs => rw [← hrest]
    exact List.flatMap_append
  have hlen : (s.map Write.msg).length = (s.filter (Write.whole code)).length + rest.length := by
    rw [List.length_map, ← List.length_append, hrest]
  apply Nat.le_antisymm
  · cases rest with
    | nil =>
      have hle := fit_le code (s.map Write.msg) (accepted code s).length
      rw [List.length_nil] at hlen
      omega
    | cons x after =>
      -- The next write is not whole, so it failed and is the last.
      have hx : x.whole code = false := by
        by_contra hx
        have hcount := congrArg (fun l => (l.filter (Write.whole code)).length) hrest
        simp [List.filter_filter, Bool.eq_true_of_not_eq_false hx] at hcount
      have hafter : after = [] := by
        apply h.failed_last hrest.symm
        intro hok
        rw [Write.whole_of_ok code hok] at hx
        cases hx
      subst hafter
      by_contra hgt
      have hfits := (le_fit_iff code (s.map Write.msg) (accepted code s).length
        ((s.filter (Write.whole code)).length + 1) (by rw [hlen]; simp)).mp (by omega)
      rw [List.take_of_length_le (by rw [hlen]; simp)] at hfits
      have hmsgs : (s.map Write.msg).flatMap code =
          ((s.filter (Write.whole code)).map Write.msg).flatMap code ++ code x.msg := by
        conv_lhs => rw [← hrest]
        simp only [List.map_append, List.flatMap_append, List.map_cons, List.map_nil, List.flatMap_cons,
          List.flatMap_nil, List.append_nil]
      rw [hbytes, hwhole, hmsgs, List.length_append, List.length_append, Nat.add_le_add_iff_left] at hfits
      have hshort : (x.outcome.taken (code x.msg)).length < (code x.msg).length := by
        have hpre := taken_prefixes x.outcome (code x.msg)
        refine Nat.lt_of_le_of_ne hpre.length_le fun he => ?_
        simp [Write.whole, hpre.eq_of_length he] at hx
      simp only [accepted, List.flatMap_cons, List.flatMap_nil, List.append_nil] at hfits
      omega
  · rw [le_fit_iff _ _ _ _ (by omega), ← List.map_take, ← List.prefix_iff_eq_take.mp (h.filter_whole code),
      ← hwhole, hbytes, List.length_append]
    exact Nat.le_add_right ..

end Bytes

/-! ### At the receiver -/

section Receive
variable {PeerId : Type} (C : PeerIdCodec PeerId)

/-- From any part of a sound stream that arrives, the receiver dispatches the
messages that lie inside it. -/
theorem Sound.dispatched_part {μ : Type} (message : μ → Message PeerId) {s : List (Write μ)} (h : Sound s)
    (hm : ∀ x ∈ s, Framed (message x.msg)) (p : List UInt8)
    (hp : p <+: accepted (fun m => frame C (message m)) s) :
    Protocol.dispatched C p =
      (((s.map Write.msg).take (fit (fun m => frame C (message m)) (s.map Write.msg) p.length)).map message,
        .eof) := by
  have hframed : ∀ m ∈ (s.map Write.msg).map message, Framed m := by
    intro m hmem
    rw [List.map_map] at hmem
    obtain ⟨x, hx, rfl⟩ := List.mem_map.mp hmem
    exact hm x hx
  have hcut : p <+: ((s.map Write.msg).map message).flatMap (frame C) := by
    rw [List.flatMap_map]
    exact hp.trans (h.accepted_prefixes _)
  rw [dispatched_cut C _ hframed p hcut, fit_map, List.map_take]

/-- Of these the stream took each whole, and they are in the order of their writes. -/
theorem Sound.dispatched {s : List (Write (Message PeerId))} (h : Sound s)
    (hm : ∀ x ∈ s, Framed x.msg) (p : List UInt8) (hp : p <+: accepted (frame C) s) :
    ∃ got, Protocol.dispatched C p = (got, .eof) ∧
      got.Sublist ((s.filter (Write.whole (frame C))).map Write.msg) := by
  refine ⟨_, h.dispatched_part C id hm p hp, ?_⟩
  rw [List.map_id, List.prefix_iff_eq_take.mp (h.filter_whole (frame C)), List.map_take]
  refine (List.take_prefix_take_left ?_).sublist
  have hfit := h.fit_accepted (frame C)
  rw [← hfit]
  exact fit_mono _ _ hp.length_le

/-- A sound stream that arrives as far as it was taken dispatches exactly the
messages it took whole. -/
theorem Sound.dispatched_whole {μ : Type} (message : μ → Message PeerId) {s : List (Write μ)} (h : Sound s)
    (hm : ∀ x ∈ s, Framed (message x.msg)) :
    (Protocol.dispatched C (accepted (fun m => frame C (message m)) s)).1 =
      (s.filter (Write.whole fun m => frame C (message m))).map fun x => message x.msg := by
  rw [h.dispatched_part C message hm _ (List.prefix_refl _), h.fit_accepted,
    ← List.map_take, ← List.prefix_iff_eq_take.mp (h.filter_whole _), List.map_map]
  rfl

variable (env : Nat → Attempt) (msgs : List (Message PeerId))

theorem stream_framed (hm : ∀ m ∈ msgs, Framed m) :
    ∀ s ∈ (peerWriterTask env msgs {}).1.streams, ∀ x ∈ s, Framed x.msg := by
  intro s hs x hx
  have hsub := (peerWriterTask_start env msgs).within.streams s hs
  exact hm _ (by simpa using hsub.subset (List.mem_map_of_mem hx))

/-- **Framing survives every failure.** Each stream a writer opened took whole
messages and at most one piece of one more, with nothing after a failed write;
whatever part of it arrives, the receiver dispatches submitted messages only;
and the messages reported `Ok` are, one for one and in order, the successful
writes, each of them whole on its stream. -/
theorem framing_integrity (hm : ∀ m ∈ msgs, Framed m) :
    (∀ s ∈ (peerWriterTask env msgs {}).1.streams,
      (∃ (done last : List (Message PeerId)) (tail : List UInt8), (done ++ last).Sublist msgs ∧ last.length ≤ 1 ∧
        accepted (frame C) s = done.flatMap (frame C) ++ tail ∧ tail <+: last.flatMap (frame C)) ∧
      (∀ before x after, s = before ++ x :: after → x.outcome ≠ .ok → after = []) ∧
      (∀ p, p <+: accepted (frame C) s →
        ∃ got, Protocol.dispatched C p = (got, .eof) ∧ got.Sublist msgs)) ∧
    (((peerWriterTask env msgs {}).1.writes.filter (·.outcome = .ok)).map Write.msg =
      succeeded msgs (peerWriterTask env msgs {}).2) ∧
    (∀ m ∈ succeeded msgs (peerWriterTask env msgs {}).2,
      ∃ s ∈ (peerWriterTask env msgs {}).1.streams, ∃ (done : List (Message PeerId)) (rest : List UInt8),
        done.Sublist msgs ∧ accepted (frame C) s = done.flatMap (frame C) ++ (frame C m ++ rest)) := by
  have hr := peerWriterTask_start env msgs
  have hsub : ∀ s ∈ (peerWriterTask env msgs {}).1.streams, (s.map Write.msg).Sublist msgs :=
    hr.within.streams
  obtain ⟨new, hnew, _, hok⟩ := hr.writes
  have hwrites : (peerWriterTask env msgs {}).1.writes = new := by
    rw [hnew]
    rfl
  refine ⟨fun s hs => ⟨?_, ?_, ?_⟩, ?_, ?_⟩
  · obtain ⟨done, last, heq, hlast, tail, hbytes, htail⟩ := (hr.kept.sound s hs).bytes (frame C)
    exact ⟨done, last, tail, heq ▸ hsub s hs, hlast, hbytes, htail⟩
  · intro before x after heq hx
    exact (hr.kept.sound s hs).failed_last heq hx
  · intro p hp
    obtain ⟨got, hgot, hin⟩ :=
      (hr.kept.sound s hs).dispatched C (stream_framed env msgs hm s hs) p hp
    exact ⟨got, hgot, hin.trans ((List.filter_sublist.map _).trans (hsub s hs))⟩
  · rw [hwrites]
    exact hok
  · intro m hmem
    rw [← hok, ← hwrites] at hmem
    obtain ⟨x, hx, rfl⟩ := List.mem_map.mp hmem
    obtain ⟨hx, hxok⟩ := List.mem_filter.mp hx
    obtain ⟨s, hs, hxs⟩ := List.mem_flatten.mp hx
    obtain ⟨done, rest, hdone, hbytes⟩ :=
      (hr.kept.sound s hs).whole (frame C) hxs (by simpa using hxok)
    exact ⟨s, hs, done, rest, hdone.trans (hsub s hs), hbytes⟩

/-- A first write cut after five bytes: the message still goes out whole. -/
theorem framing_integrity_retry :
    ∃ s ∈ (peerWriterTask (fun n => ⟨true, if n = 0 then .writeAllErr 5 else .ok⟩)
        [plainMessage .expected 7 (Ed25519Id.ofByte 1) [10]] {}).1.streams,
      ∃ (done : List (Message Ed25519Id)) (rest : List UInt8),
        done.Sublist [plainMessage .expected 7 (Ed25519Id.ofByte 1) [10]] ∧
        accepted (frame Ed25519Id.codec) s = done.flatMap (frame Ed25519Id.codec) ++
          (frame Ed25519Id.codec (plainMessage .expected 7 (Ed25519Id.ofByte 1) [10]) ++ rest) :=
  (framing_integrity Ed25519Id.codec _ _ (by decide)).2.2 _ (by decide)

/-! ### How often a message is delivered -/

/-- The receiver dispatches from all the streams together no more than what they
took whole. -/
theorem dispatched_all (streams : List (List (Write (Message PeerId))))
    (hs : ∀ s ∈ streams, Sound s ∧ ∀ x ∈ s, Framed x.msg) (cuts : List (List UInt8))
    (hc : List.Forall₂ (fun p s => p <+: accepted (frame C) s) cuts streams) :
    (cuts.flatMap fun p => (Protocol.dispatched C p).1).Sublist
      ((streams.flatten.filter (Write.whole (frame C))).map Write.msg) := by
  induction hc with
  | nil => exact List.Sublist.refl _
  | @cons p s cuts streams hp _ ih =>
    obtain ⟨hsound, hframed⟩ := hs s (List.mem_cons_self ..)
    obtain ⟨got, hgot, hsub⟩ := hsound.dispatched C hframed p hp
    rw [List.flatMap_cons, hgot, List.flatten_cons, List.filter_append, List.map_append]
    exact hsub.append (ih fun t ht => hs t (List.mem_cons_of_mem s ht))

theorem succeeded_sublist {μ : Type} (msgs : List μ) (results : List (Except SendError Unit)) :
    (succeeded msgs results).Sublist msgs := by
  unfold succeeded
  induction msgs generalizing results with
  | nil => simp
  | cons m rest ih =>
    cases results with
    | nil => simp
    | cons r results =>
      rw [List.zip_cons_cons, List.filterMap_cons]
      cases r with
      | ok _ => exact (ih results).cons_cons m
      | error _ => exact (ih results).cons m

theorem count_thrice {μ : Type} [BEq μ] [LawfulBEq μ] (msgs : List μ) (m : μ) :
    (msgs.flatMap (List.replicate 3)).count m = 3 * msgs.count m := by
  induction msgs with
  | nil => rfl
  | cons x rest ih =>
    rw [List.flatMap_cons, List.count_append, ih, List.count_replicate, List.count_cons]
    split <;> omega

/-- The whole writes of a message are the successful ones and the failed whole ones. -/
theorem count_whole {μ : Type} [BEq μ] [LawfulBEq μ] (code : μ → List UInt8)
    (ws : List (Write μ)) (m : μ) :
    ((ws.filter (Write.whole code)).map Write.msg).count m ≤
      ((ws.filter (·.outcome = .ok)).map Write.msg).count m +
        ws.countP (fun x => x.msg == m && x.outcome ≠ .ok && x.whole code) := by
  induction ws with
  | nil => simp
  | cons x rest ih =>
    by_cases hm : x.msg = m <;> by_cases hok : x.outcome = .ok <;> cases hw : x.whole code <;>
      simp [hm, hok, hw] at ih ⊢ <;> omega

variable [DecidableEq PeerId]

/-- The failed writes of `m` that the stream had nonetheless taken whole. -/
def failedWhole (w : Writer (Message PeerId)) (m : Message PeerId) : Nat :=
  w.writes.countP fun x => x.msg == m && x.outcome ≠ .ok && x.whole (frame C)

/-- **How often a message is delivered.** Whatever part of each stream arrives,
the receiver dispatches a message at most three times for each time it was
submitted, and at most once more than it was submitted for every failed write
that the stream had taken whole: with none of those, at most once for each. -/
theorem delivery_bound (hm : ∀ m ∈ msgs, Framed m) (cuts : List (List UInt8))
    (hc : List.Forall₂ (fun p s => p <+: accepted (frame C) s) cuts
      (peerWriterTask env msgs {}).1.streams) (m : Message PeerId) :
    (cuts.flatMap fun p => (Protocol.dispatched C p).1).count m ≤ 3 * msgs.count m ∧
      (cuts.flatMap fun p => (Protocol.dispatched C p).1).count m ≤
        msgs.count m + failedWhole C (peerWriterTask env msgs {}).1 m := by
  have hr := peerWriterTask_start env msgs
  obtain ⟨new, hnew, hthree, hok⟩ := hr.writes
  have hwrites : (peerWriterTask env msgs {}).1.writes = new := by
    rw [hnew]
    rfl
  have hall := dispatched_all C _
    (fun s hs => ⟨hr.kept.sound s hs, stream_framed env msgs hm s hs⟩) cuts hc
  have hcount := hall.count_le m
  rw [show (peerWriterTask env msgs {}).1.streams.flatten = new from hwrites] at hcount
  constructor
  · rw [← count_thrice]
    exact hcount.trans (((List.filter_sublist.map _).trans hthree).count_le m)
  · have hsplit := count_whole (frame C) new m
    rw [hok] at hsplit
    have hsucc := (succeeded_sublist msgs (peerWriterTask env msgs {}).2).count_le m
    unfold failedWhole
    rw [hwrites]
    omega

end Receive

/-- The stream takes the first write whole, but its `flush` fails. -/
def flushFails : Nat → Attempt := fun n => ⟨true, if n = 0 then .flushErr else .ok⟩

/-- Then the message is whole on two streams. -/
theorem flushFails_cuts {PeerId : Type} (C : PeerIdCodec PeerId) (m : Message PeerId) :
    List.Forall₂ (fun p s => p <+: accepted (frame C) s) [frame C m, frame C m]
      (peerWriterTask flushFails [m] {}).1.streams := by
  have hstreams : (peerWriterTask flushFails [m] {}).1.streams =
      [[⟨m, .flushErr⟩], [⟨m, .ok⟩]] := rfl
  rw [hstreams]
  exact .cons (by simp [accepted, WriteOutcome.taken])
    (.cons (by simp [accepted, WriteOutcome.taken]) .nil)

/-- **A message can be delivered twice**: submitted once and reported `Ok` once,
it arrives on both streams. -/
theorem message_delivered_twice :
    ∃ (m : Message Ed25519Id) (cuts : List (List UInt8)), Framed m ∧
      List.Forall₂ (fun p s => p <+: accepted (frame Ed25519Id.codec) s) cuts
        (peerWriterTask flushFails [m] {}).1.streams ∧
      (cuts.flatMap fun p => (Protocol.dispatched Ed25519Id.codec p).1).count m = 2 := by
  let m := plainMessage .unexpected 7 (Ed25519Id.ofByte 1) [10]
  refine ⟨m, [frame Ed25519Id.codec m, frame Ed25519Id.codec m], by decide,
    flushFails_cuts Ed25519Id.codec m, ?_⟩
  have hone : Protocol.dispatched Ed25519Id.codec (frame Ed25519Id.codec m) = ([m], .eof) := by
    have := dispatched_whole Ed25519Id.codec [m] (by decide)
    rwa [List.flatMap_cons, List.flatMap_nil, List.append_nil] at this
  simp [hone]

/-- The bound on that run: one submission and one failed write taken whole. -/
theorem delivery_bound_retry :
    ([frame Ed25519Id.codec (plainMessage .unexpected 7 (Ed25519Id.ofByte 1) [10]),
        frame Ed25519Id.codec (plainMessage .unexpected 7 (Ed25519Id.ofByte 1) [10])].flatMap
      fun p => (Protocol.dispatched Ed25519Id.codec p).1).count
        (plainMessage .unexpected 7 (Ed25519Id.ofByte 1) [10]) ≤ 1 + 1 :=
  (delivery_bound Ed25519Id.codec flushFails
    [plainMessage .unexpected 7 (Ed25519Id.ofByte 1) [10]] (by decide) _
    (flushFails_cuts _ _) _).2.trans (by decide)

end NaLibp2p.Runtime
