import Arald.Transports.GattFragments

/-!
# A link with wrapping message ids

One sender cuts messages one after the other, and their fragments arrive at one
reassembler; any of them may be lost or arrive more than once. An entry that a lost
fragment left unfinished, or that a repeated one began anew, stays until later messages
evict it, and the counter comes round to its id meanwhile.
-/

namespace Arald

open Foundations

/-- The sender's counter and messages, the reassembler, and what it returned. -/
structure GattLink (ω : Type) where
  nextMsgId : UInt8
  sent : List GattMessage
  reassembler : GattReassembler
  /-- The number of the message that began the entry of an id. -/
  begunBy : UInt8 → ℕ
  /-- The message and the fragment that arrived last. -/
  last : ℕ × ℕ
  returned : List ω

inductive GattEvent where
  | send (bytes : Buffer) (mtu : ℕ)
  /-- A fragment of the message with this number arrives. -/
  | deliver (message fragment : ℕ)

namespace GattLink

variable {ω : Type}

def start (rules : ReassemblyRules ω) : GattLink ω :=
  ⟨0, [], .empty rules.maxConcurrentReassemblies, fun _ => 0, (0, 0), []⟩

def deliver (rules : ReassemblyRules ω) (s : GattLink ω) (message : ℕ) (m : GattMessage) (fragment : ℕ)
    (bytes : Buffer) : GattLink ω :=
  let r := s.reassembler.addFragment rules bytes
  { s with
    reassembler := r.1
    begunBy :=
      if (s.reassembler.get? m.msgId).isSome then s.begunBy else Function.update s.begunBy m.msgId message
    last := (message, fragment)
    returned := s.returned ++ r.2.toList }

/-- The fragment of a message with the bytes that are sent for it. -/
def fragmentAt (s : GattLink ω) (message fragment : ℕ) : Option (GattMessage × Buffer) :=
  s.sent[message]?.bind fun m => m.fragments[fragment]?.map fun bytes => (m, bytes)

def step (cut : UInt8 → Buffer → ℕ → Except String (GattMessage × UInt8)) (rules : ReassemblyRules ω)
    (s : GattLink ω) : GattEvent → Option (GattLink ω)
  | .send bytes mtu =>
    match cut s.nextMsgId bytes mtu with
    | .error _ => some s
    | .ok (m, nextMsgId) => some { s with nextMsgId, sent := s.sent ++ [m] }
  | .deliver message fragment =>
    (s.fragmentAt message fragment).map fun found => s.deliver rules message found.1 fragment found.2

def system (cut : UInt8 → Buffer → ℕ → Except String (GattMessage × UInt8)) (rules : ReassemblyRules ω) :
    System (GattLink ω) GattEvent where
  Init s := s = start rules
  step := step cut rules

/-- Fragments arrive in the order in which they were sent. -/
def inOrder (s : GattLink ω) : GattEvent → Bool
  | .send _ _ => true
  | .deliver message fragment =>
    s.last.1 < message || (s.last.1 = message && s.last.2 ≤ fragment)

/-- A fragment that is taken into an unfinished entry belongs to the message which began it. -/
def joinsOwn (rules : ReassemblyRules ω) (s : GattLink ω) : GattEvent → Bool
  | .send _ _ => true
  | .deliver message _ =>
    s.sent[message]?.all fun m => (s.reassembler.get? m.msgId).all fun entry =>
      s.begunBy m.msgId = message || (rules.totalsAgree && entry.total ≠ m.total)

end GattLink

/-! ### Entries with fragments of one message -/

/-- All that the entry holds is from the message. -/
structure GattEntry.PartOf (entry : GattEntry) (m : GattMessage) : Prop where
  total : entry.total = m.total
  chunks : ∀ index payload, entry.chunks.get? index = some payload → payload = m.payload index

namespace GattReassembler

variable {ω : Type} {rules : ReassemblyRules ω} {r : GattReassembler} {m : GattMessage} {entry : GattEntry}
  {index : ℕ} {k : UInt8}

theorem PartOf.set (h : entry.PartOf m) (index bytesSoFar : ℕ) :
    GattEntry.PartOf { entry with chunks := entry.chunks.set index (m.payload index), bytesSoFar } m where
  total := h.total
  chunks i payload hget := by
    rw [OrderedMap.get?_set] at hget
    split_ifs at hget with hi
    · rw [hi, Option.some_inj.mp hget]
    · exact h.chunks i payload hget

theorem length_wire (m : GattMessage) (index : ℕ) : fragmentHeaderSize ≤ (m.wire index).length := by
  simp [GattMessage.wire, writeUInt16BE, fragmentHeaderSize]

/-- The header of a fragment says what the fragment is. -/
theorem addFragment_wire (rules : ReassemblyRules ω) (r : GattReassembler) (hindex : index < m.total) :
    r.addFragment rules (m.wire index) = place rules r m.msgId index m.total (m.payload index) := by
  have htotal := m.total_le
  have hmax : maxFragmentsPerMessage = 8192 := rfl
  have hle : m.total ≤ 8192 := htotal
  have hfirst : readUInt16BE ([m.msgId] ++ (writeUInt16BE index ++ (writeUInt16BE m.total ++ m.payload index)))
      [m.msgId].length = index := readUInt16BE_append (by omega) _
  have hsecond : readUInt16BE ((m.msgId :: writeUInt16BE index) ++ (writeUInt16BE m.total ++ m.payload index))
      (m.msgId :: writeUInt16BE index).length = m.total := readUInt16BE_append (by omega) _
  change readUInt16BE (m.wire index) 1 = index at hfirst
  change readUInt16BE (m.wire index) 3 = m.total at hsecond
  have hpayload : (m.wire index).drop fragmentHeaderSize = m.payload index := rfl
  have hid : (m.wire index).getD 0 0 = m.msgId := rfl
  have hvalid : ¬(m.total = 0 ∨ maxFragmentsPerMessage < m.total ∨ m.total ≤ index) := by omega
  rw [addFragment, if_neg (not_lt.mpr (length_wire m index)), hfirst, hsecond, hpayload, hid]
  exact if_neg hvalid

theorem eq_map_of_mapM {α β : Type} {f : α → Option β} {g : α → β} {l : List α} {l' : List β}
    (hf : ∀ x ∈ l, ∀ y, f x = some y → y = g x) (h : l.mapM f = some l') : l' = l.map g := by
  induction l generalizing l' with
  | nil =>
    cases h
    rfl
  | cons x rest ih =>
    simp only [List.mapM_cons, Option.bind_eq_bind, Option.bind_eq_some_iff, Option.pure_def,
      Option.some.injEq] at h
    obtain ⟨y, hy, ys, hys, rfl⟩ := h
    rw [hf x List.mem_cons_self y hy, ih (fun z hz => hf z (List.mem_cons_of_mem x hz)) hys, List.map_cons]

/-- A change that puts only fragments of `m` into the entry of its id. -/
def Keeps (m : GattMessage) (r r' : GattReassembler) : Prop :=
  ∀ k e, r'.get? k = some e → (k = m.msgId ∧ e.PartOf m) ∨ (k ≠ m.msgId ∧ r.get? k = some e)

variable (rules index) in
/-- A fragment in an entry of its own message keeps it so, and completes it to the message. -/
theorem fill_partOf (h : entry.PartOf m) (hr : ∀ e, r.get? m.msgId = some e → e.PartOf m) :
    Keeps m r (fill rules r m.msgId entry index (m.payload index)).1 ∧
      ∀ v, (fill rules r m.msgId entry index (m.payload index)).2 = some v → v = rules.result m.bytes := by
  have hdelete : ∀ r' : GattReassembler, Keeps m r r' → Keeps m r (r'.delete m.msgId) := by
    intro r' hkeeps k e he
    rw [BoundedFifoMap.get?_delete] at he
    split_ifs at he
    exact hkeeps k e he
  have hsame : Keeps m r r := by
    intro k e he
    by_cases hk : k = m.msgId
    · exact .inl ⟨hk, hr e (hk ▸ he)⟩
    · exact .inr ⟨hk, he⟩
  unfold fill
  dsimp only
  generalize (if entry.chunks.has index then entry.bytesSoFar
    else entry.bytesSoFar + (m.payload index).length) = bytesSoFar
  have hfilled := PartOf.set h index bytesSoFar
  have hset : Keeps m r (r.set none m.msgId
      { entry with chunks := entry.chunks.set index (m.payload index), bytesSoFar }) := by
    intro k e he
    rcases BoundedFifoMap.get?_of_get?_set he with ⟨rfl, rfl⟩ | hold
    · exact .inl ⟨rfl, hfilled⟩
    · exact hsame k e hold
  split_ifs with hbound hmissing
  · exact ⟨hdelete r hsame, fun v hv => by cases hv⟩
  · exact ⟨hset, fun v hv => by cases hv⟩
  · cases hparts : (List.range entry.total).mapM (entry.chunks.set index (m.payload index)).get? with
    | none => exact ⟨hset, fun v hv => by cases hv⟩
    | some parts =>
      refine ⟨hdelete _ hset, fun v hv => ?_⟩
      cases hv
      rw [eq_map_of_mapM (fun i _ => hfilled.chunks i) hparts, h.total, ← List.flatMap_def, m.flatMap_payload]

variable (rules) in
/-- A fragment that meets no entry, or one of its own message. -/
theorem addFragment_partOf (hindex : index < m.total) (hr : ∀ e, r.get? m.msgId = some e → e.PartOf m) :
    Keeps m r (r.addFragment rules (m.wire index)).1 ∧
      ∀ v, (r.addFragment rules (m.wire index)).2 = some v → v = rules.result m.bytes := by
  rw [addFragment_wire rules r hindex, place]
  cases hget : r.get? m.msgId with
  | none =>
    have hnew : GattEntry.PartOf ⟨.empty, m.total, 0⟩ m := ⟨rfl, fun i payload hi => by cases hi⟩
    have hfresh : ∀ e, (r.set none m.msgId ⟨.empty, m.total, 0⟩).get? m.msgId = some e → e.PartOf m := by
      intro e he
      rcases BoundedFifoMap.get?_of_get?_set he with ⟨-, rfl⟩ | hold
      · exact hnew
      · cases hget.symm.trans hold
    obtain ⟨hkeeps, hresult⟩ := fill_partOf rules index hnew hfresh
    refine ⟨fun k e he => ?_, hresult⟩
    rcases hkeeps k e he with hown | ⟨hk, hother⟩
    · exact .inl hown
    · rcases BoundedFifoMap.get?_of_get?_set hother with ⟨hsame, -⟩ | hold
      · exact absurd hsame hk
      · exact .inr ⟨hk, hold⟩
  | some entry =>
    have hentry := hr entry hget
    have hagree : (rules.totalsAgree && decide (entry.total ≠ m.total)) = false := by simp [hentry.total]
    dsimp only
    rw [hagree]
    exact fill_partOf rules index hentry hr

end GattReassembler

/-! ### Runs -/

/-- The entries are of messages that were sent, and so are the values returned. -/
structure GattLink.Unmixed {ω : Type} (rules : ReassemblyRules ω) (s : GattLink ω) : Prop where
  entries : ∀ k entry, s.reassembler.get? k = some entry →
    ∃ m, s.sent[s.begunBy k]? = some m ∧ m.msgId = k ∧ entry.PartOf m
  returned : ∀ v ∈ s.returned, ∃ m ∈ s.sent, v = rules.result m.bytes

namespace GattLink

variable {ω : Type} {rules : ReassemblyRules ω} {s s' : GattLink ω} {m : GattMessage}
  {cut : UInt8 → Buffer → ℕ → Except String (GattMessage × UInt8)}

theorem Unmixed.send (h : Unmixed rules s) (m : GattMessage) (nextMsgId : UInt8) :
    Unmixed rules { s with nextMsgId, sent := s.sent ++ [m] } where
  entries k entry hk := by
    obtain ⟨m', hm', hid, hpart⟩ := h.entries k entry hk
    obtain ⟨hlength, -⟩ := List.getElem?_eq_some_iff.mp hm'
    exact ⟨m', (List.getElem?_append_left hlength).trans hm', hid, hpart⟩
  returned v hv := by
    obtain ⟨m', hm', hv⟩ := h.returned v hv
    exact ⟨m', List.mem_append_left _ hm', hv⟩

theorem Unmixed.deliver (h : Unmixed rules s) {message fragment : ℕ} (hm : s.sent[message]? = some m)
    (hfragment : fragment < m.total) (hjoins : s.joinsOwn rules (.deliver message fragment) = true) :
    Unmixed rules (s.deliver rules message m fragment (m.wire fragment)) := by
  have hown : ∀ entry, s.reassembler.get? m.msgId = some entry →
      s.begunBy m.msgId = message ∨ (rules.totalsAgree && entry.total ≠ m.total) = true := by
    intro entry hentry
    simpa [joinsOwn, hm, hentry] using hjoins
  by_cases hother : ∃ entry, s.reassembler.get? m.msgId = some entry ∧ s.begunBy m.msgId ≠ message
  · -- the fragment is refused, and nothing changes
    obtain ⟨entry, hentry, hbegun⟩ := hother
    have hrefused : s.reassembler.addFragment rules (m.wire fragment) = (s.reassembler, none) := by
      rw [GattReassembler.addFragment_wire rules _ hfragment, GattReassembler.place, hentry]
      exact if_pos ((hown entry hentry).resolve_left hbegun)
    unfold GattLink.deliver
    rw [hrefused, hentry]
    exact ⟨h.entries, fun v hv => h.returned v (by simpa using hv)⟩
  · have hbegun : ∀ entry, s.reassembler.get? m.msgId = some entry → s.begunBy m.msgId = message :=
      fun entry hentry => by_contra fun hne => hother ⟨entry, hentry, hne⟩
    have hpart : ∀ entry, s.reassembler.get? m.msgId = some entry → entry.PartOf m := by
      intro entry hentry
      obtain ⟨m', hm', -, hpart⟩ := h.entries _ entry hentry
      rw [hbegun entry hentry, hm] at hm'
      exact Option.some_inj.mp hm' ▸ hpart
    obtain ⟨hkeeps, hresult⟩ := GattReassembler.addFragment_partOf rules hfragment hpart
    constructor
    · intro k entry hentry
      rcases hkeeps k entry hentry with ⟨rfl, hpart'⟩ | ⟨hk, hold⟩
      · refine ⟨m, ?_, rfl, hpart'⟩
        rw [← hm]
        cases hget : s.reassembler.get? m.msgId with
        | none => simp [GattLink.deliver, hget]
        | some old => simp [GattLink.deliver, hget, hbegun old hget]
      · obtain ⟨m', hm', hid, hpart'⟩ := h.entries k entry hold
        refine ⟨m', ?_, hid, hpart'⟩
        rw [← hm']
        cases hget : s.reassembler.get? m.msgId with
        | none => simp [GattLink.deliver, hget, Function.update_of_ne hk]
        | some old => simp [GattLink.deliver, hget]
    · intro v hv
      rcases List.mem_append.mp hv with hv | hv
      · exact h.returned v hv
      · exact ⟨m, List.mem_of_getElem? hm, hresult v (Option.mem_toList.mp hv)⟩

theorem unmixed (h : (system cut rules).ReachableUnder (fun s e => s.joinsOwn rules e = true) s) :
    Unmixed rules s := by
  apply h.invariant (I := Unmixed rules)
  · rintro _ rfl
    exact ⟨(fun k entry hk => by cases hk), (fun v hv => by cases hv)⟩
  · intro s event s' hs hjoins hstep
    cases event with
    | send bytes mtu =>
      simp only [system, step] at hstep
      split at hstep
      · cases hstep
        exact hs
      · cases hstep
        exact hs.send _ _
    | deliver message fragment =>
      obtain ⟨⟨m, bytes⟩, hfound, rfl⟩ := Option.map_eq_some_iff.mp hstep
      obtain ⟨m', hm, hfragment⟩ := Option.bind_eq_some_iff.mp hfound
      obtain ⟨bytes', hbytes, hpair⟩ := Option.map_eq_some_iff.mp hfragment
      cases hpair
      obtain ⟨hlt, rfl⟩ := GattMessage.getElem?_fragments hbytes
      exact hs.deliver hm hlt hjoins

end GattLink

/-- The link of the phone. -/
def BleLink.system (decode : Buffer → String) : System (GattLink String) GattEvent :=
  GattLink.system fragmentPacket (rules decode)

/-- The link of the hub. -/
def WifiGatt.system : System (GattLink Buffer) GattEvent := GattLink.system fragmentBytes rules

namespace GattLink

/-- As long as no fragment is taken into an entry that another message began, whatever is
returned is a message that was sent, on the phone and on the hub. -/
theorem returned_were_sent (decode : Buffer → String) :
    (∀ s, (BleLink.system decode).ReachableUnder
      (fun s event => s.joinsOwn (BleLink.rules decode) event = true) s →
        ∀ text ∈ s.returned, ∃ m ∈ s.sent, text = decode m.bytes) ∧
    ∀ s, WifiGatt.system.ReachableUnder (fun s event => s.joinsOwn WifiGatt.rules event = true) s →
      ∀ bytes ∈ s.returned, ∃ m ∈ s.sent, bytes = m.bytes :=
  ⟨fun _ h => (unmixed h).returned, fun _ h => (unmixed h).returned⟩

/-- The text of bytes below 128. -/
def asciiText (bytes : Buffer) : String := String.ofList (bytes.map fun b => Char.ofNat b.toNat)

/-- A message whose first fragment comes twice is returned once it is complete. -/
theorem returned_were_sent_repeated :
    (∃ s, (BleLink.system asciiText).ReachableUnder
      (fun s event => s.joinsOwn (BleLink.rules asciiText) event = true) s ∧ s.returned = ["ab"] ∧
        ∀ text ∈ s.returned, ∃ m ∈ s.sent, text = asciiText m.bytes) ∧
    ∃ s, WifiGatt.system.ReachableUnder (fun s event => s.joinsOwn WifiGatt.rules event = true) s ∧
      s.returned = [[97, 98]] ∧ ∀ bytes ∈ s.returned, ∃ m ∈ s.sent, bytes = m.bytes := by
  have hphone : ((BleLink.system asciiText).runUnder (joinsOwn (BleLink.rules asciiText))
      (start (BleLink.rules asciiText))
      [.send [97, 98] 6, .deliver 0 0, .deliver 0 0, .deliver 0 1]).map (·.returned) = some ["ab"] := by
    decide
  have hhub : (WifiGatt.system.runUnder (joinsOwn WifiGatt.rules) (start WifiGatt.rules)
      [.send [97, 98] 6, .deliver 0 0, .deliver 0 0, .deliver 0 1]).map (·.returned) = some [[97, 98]] := by
    decide
  obtain ⟨s, hs, hreturned⟩ := Option.map_eq_some_iff.mp hphone
  obtain ⟨t, ht, hreturned'⟩ := Option.map_eq_some_iff.mp hhub
  have hphone' := System.reachableUnder_of_runUnder (S := BleLink.system asciiText) rfl hs
  have hhub' := System.reachableUnder_of_runUnder (S := WifiGatt.system) rfl ht
  exact ⟨⟨s, hphone', hreturned, (returned_were_sent asciiText).1 s hphone'⟩,
    t, hhub', hreturned', (returned_were_sent asciiText).2 t hhub'⟩

/-- The first fragment of a message arrives and the second is lost; 256 messages later the
first is lost and the second arrives. -/
def staleEntry : List GattEvent :=
  .send [97, 98] 6 :: .deliver 0 0 :: List.replicate 255 (.send [99] 6) ++ [.send [100, 101] 6, .deliver 256 1]

/-- Both return the first half of one message with the second half of another. -/
theorem blended :
    (¬∀ s, (BleLink.system asciiText).ReachableUnder (fun s event => s.inOrder event = true) s →
      ∀ text ∈ s.returned, ∃ m ∈ s.sent, text = asciiText m.bytes) ∧
    ¬∀ s, WifiGatt.system.ReachableUnder (fun s event => s.inOrder event = true) s →
      ∀ bytes ∈ s.returned, ∃ m ∈ s.sent, bytes = m.bytes := by
  constructor
  · intro hclaim
    have hrun : ((BleLink.system asciiText).runUnder inOrder (start (BleLink.rules asciiText)) staleEntry).map
        (fun s => (s.returned, s.sent.any fun m => "ae" = asciiText m.bytes)) = some (["ae"], false) := by
      decide +kernel
    obtain ⟨s, hs, hview⟩ := Option.map_eq_some_iff.mp hrun
    obtain ⟨hreturned, hsent⟩ := Prod.mk.inj hview
    obtain ⟨m, hm, htext⟩ := hclaim s
      (System.reachableUnder_of_runUnder (S := BleLink.system asciiText) rfl hs) "ae" (by simp [hreturned])
    exact Bool.eq_false_iff.mp hsent (List.any_eq_true.mpr ⟨m, hm, decide_eq_true htext⟩)
  · intro hclaim
    have hrun : (WifiGatt.system.runUnder inOrder (start WifiGatt.rules) staleEntry).map
        (fun s => (s.returned, s.sent.any fun m => [97, 101] = m.bytes)) = some ([[97, 101]], false) := by
      decide +kernel
    obtain ⟨s, hs, hview⟩ := Option.map_eq_some_iff.mp hrun
    obtain ⟨hreturned, hsent⟩ := Prod.mk.inj hview
    obtain ⟨m, hm, hbytes⟩ := hclaim s
      (System.reachableUnder_of_runUnder (S := WifiGatt.system) rfl hs) [97, 101] (by simp [hreturned])
    exact Bool.eq_false_iff.mp hsent (List.any_eq_true.mpr ⟨m, hm, decide_eq_true hbytes⟩)

end GattLink
end Arald
