/-
What the app server is told about the connections of remote-control clients.

A connection is opened, gets messages, and is closed at most once, whatever fails on the way.
But the end of an outbound task is reported with the key of its client alone.  If the client
has initialized again in the meantime, the connection found under the key is another one.
-/
import SushiGpt.Lib.Machine
import SushiGpt.RemoteControl.ClientTracker

namespace SushiGpt.RemoteControl

variable {Message : Type}

/-! ### The life of a connection -/

def TransportEvent.connectionId : TransportEvent Message → Nat
  | connectionOpened connectionId => connectionId
  | incomingMessage connectionId _ => connectionId
  | connectionClosed connectionId => connectionId

def life (events : List (TransportEvent Message)) (connection : Nat) :
    List (TransportEvent Message) :=
  events.filter fun event => event.connectionId = connection

/-- The connection has been opened and has got messages. -/
def IsOpen (events : List (TransportEvent Message)) (connection : Nat) : Prop :=
  ∃ messages : List Message, life events connection =
    .connectionOpened connection :: messages.map (.incomingMessage connection)

/-- The connection has been opened, has got messages, and has been closed. -/
def IsClosed (events : List (TransportEvent Message)) (connection : Nat) : Prop :=
  ∃ messages : List Message, life events connection =
    .connectionOpened connection :: messages.map (.incomingMessage connection) ++
      [.connectionClosed connection]

/-- Every connection is closed at most once, and its messages lie between its opening and its
closing. -/
def Bracketed (events : List (TransportEvent Message)) : Prop :=
  ∀ connection, life events connection = [] ∨ IsOpen events connection ∨ IsClosed events connection

variable {es : List (TransportEvent Message)} {e : TransportEvent Message}
  {c o : Nat}

theorem life_append_of_ne (h : e.connectionId ≠ c) : life (es ++ [e]) c = life es c := by
  simp [life, h]

theorem life_append_self (h : e.connectionId = c) : life (es ++ [e]) c = life es c ++ [e] := by
  simp [life, h]

theorem IsOpen.ne_nil (h : IsOpen es c) : life es c ≠ [] := by
  obtain ⟨ms, h⟩ := h
  rw [h]
  nofun

theorem IsOpen.append_of_ne (h : IsOpen es c)
    (hne : e.connectionId ≠ c) : IsOpen (es ++ [e]) c := by
  unfold IsOpen
  rw [life_append_of_ne hne]
  exact h

theorem IsClosed.append_of_ne (h : IsClosed es c)
    (hne : e.connectionId ≠ c) : IsClosed (es ++ [e]) c := by
  unfold IsClosed
  rw [life_append_of_ne hne]
  exact h

theorem isOpen_opened (h : life es c = []) : IsOpen (es ++ [.connectionOpened c]) c :=
  ⟨[], (life_append_self rfl).trans (congrArg (· ++ [_]) h)⟩

theorem IsOpen.incoming (h : IsOpen es c) (m : Message) :
    IsOpen (es ++ [.incomingMessage c m]) c := by
  obtain ⟨ms, h⟩ := h
  refine ⟨ms ++ [m], (life_append_self rfl).trans ?_⟩
  rw [List.map_append]
  exact congrArg (· ++ [_]) h

theorem IsOpen.closed (h : IsOpen es c) : IsClosed (es ++ [.connectionClosed c]) c := by
  obtain ⟨ms, h⟩ := h
  exact ⟨ms, (life_append_self rfl).trans (congrArg (· ++ [_]) h)⟩

/-- An event of one connection leaves the others as they are. -/
theorem Bracketed.append (h : Bracketed es)
    (hself : IsOpen (es ++ [e]) e.connectionId ∨
      IsClosed (es ++ [e]) e.connectionId) : Bracketed (es ++ [e]) := by
  intro c
  by_cases hne : e.connectionId = c
  · exact .inr (hne ▸ hself)
  · refine (h c).imp (fun hnil => ?_) (Or.imp ?_ ?_)
    · rw [life_append_of_ne hne, hnil]
    · exact fun hop => hop.append_of_ne hne
    · exact fun hcl => hcl.append_of_ne hne

/-! ### What every step keeps -/

structure Sound (tracker : ClientTracker Message) : Prop where
  fresh : ∀ connection, tracker.nextConnectionId ≤ connection → life tracker.events connection = []
  bracketed : Bracketed tracker.events
  clients : ∀ key client, tracker.clients.lookup key = some client →
    IsOpen tracker.events client.connectionId
  distinct : ∀ key key' client client', tracker.clients.lookup key = some client →
    tracker.clients.lookup key' = some client' →
      client.connectionId = client'.connectionId → key = key'
  closing : ∀ connection ∈ tracker.closing, IsOpen tracker.events connection ∧
    ∀ key client, tracker.clients.lookup key = some client → client.connectionId ≠ connection
  closingOnce : tracker.closing.Nodup

/-- The connection is open, but no longer known to the tracker. -/
structure Loose (tracker : ClientTracker Message) (connection : Nat) : Prop where
  isOpen : IsOpen tracker.events connection
  noClient : ∀ key client, tracker.clients.lookup key = some client →
    client.connectionId ≠ connection
  notClosing : connection ∉ tracker.closing

section

open ClientTracker AList

variable {t : ClientTracker Message} {key : ClientKey} {client : ClientState}

theorem lookup_of_lookup_erase {key' : ClientKey} {o : ClientState}
    (h : (t.clients.erase key).lookup key' = some o) :
    key' ≠ key ∧ t.clients.lookup key' = some o := by
  by_cases hkey : key' = key
  · rw [hkey, lookup_erase] at h
    cases h
  · rw [lookup_erase_ne hkey] at h
    exact ⟨hkey, h⟩

section

variable (h : Sound t)
include h

theorem Sound.lt_of_isOpen (hop : IsOpen t.events c) : c < t.nextConnectionId :=
  Nat.not_le.mp fun hle => hop.ne_nil (h.fresh c hle)

/-- An event of an open connection is no event of a later one. -/
theorem Sound.fresh_append (hop : IsOpen t.events e.connectionId)
    (hle : t.nextConnectionId ≤ c) : life (t.events ++ [e]) c = [] :=
  (life_append_of_ne ((h.lt_of_isOpen hop).trans_le hle).ne).trans (h.fresh c hle)

theorem Sound.incoming (hlk : t.clients.lookup key = some client) (m : Message) :
    Sound { t with
      events := t.events ++ [.incomingMessage client.connectionId m] } := by
  have hself := h.clients key client hlk
  have hop : ∀ c, IsOpen t.events c →
      IsOpen (t.events ++ [.incomingMessage client.connectionId m]) c := by
    intro c hop
    by_cases hne : client.connectionId = c
    · exact hne ▸ hself.incoming m
    · exact hop.append_of_ne hne
  exact ⟨fun _ => h.fresh_append hself, h.bracketed.append (.inl (hself.incoming m)),
    fun key' client' hlk' => hop _ (h.clients key' client' hlk'), h.distinct,
    fun c hclos => ⟨hop _ (h.closing c hclos).1, (h.closing c hclos).2⟩, h.closingOnce⟩

theorem Sound.setClients {clients : AList fun _ : ClientKey => ClientState}
    (hold : ∀ key o, clients.lookup key = some o → ∃ before,
      t.clients.lookup key = some before ∧ o.connectionId = before.connectionId) :
    Sound { t with clients } := by
  refine ⟨h.fresh, h.bracketed, fun key' o ho => ?_,
    fun key₁ key₂ o₁ o₂ ho₁ ho₂ heq => ?_, fun c hclos =>
      ⟨(h.closing c hclos).1, fun key' o ho => ?_⟩, h.closingOnce⟩
  · obtain ⟨before, hbefore, heq⟩ := hold key' o ho
    rw [heq]
    exact h.clients key' before hbefore
  · obtain ⟨before₁, hbefore₁, heq₁⟩ := hold key₁ o₁ ho₁
    obtain ⟨before₂, hbefore₂, heq₂⟩ := hold key₂ o₂ ho₂
    exact h.distinct key₁ key₂ before₁ before₂ hbefore₁ hbefore₂ (by rw [← heq₁, heq, heq₂])
  · obtain ⟨before, hbefore, heq⟩ := hold key' o ho
    rw [heq]
    exact (h.closing c hclos).2 key' before hbefore

theorem Sound.setClient {client' : ClientState} (hlk : t.clients.lookup key = some client)
    (hsame : client'.connectionId = client.connectionId) :
    Sound { t with clients := t.clients.insert key client' } := by
  refine h.setClients fun key' o ho => ?_
  by_cases hkey : key' = key
  · subst hkey
    rw [lookup_insert] at ho
    cases ho
    exact ⟨client, hlk, hsame⟩
  · rw [lookup_insert_ne hkey] at ho
    exact ⟨o, ho, rfl⟩

theorem Sound.disconnect (hlk : t.clients.lookup key = some client) (cause : CloseCause) :
    Sound (t.disconnect key client.connectionId cause) ∧
      Loose (t.disconnect key client.connectionId cause) client.connectionId := by
  have heras : Sound { t with clients := t.clients.erase key } :=
    h.setClients fun key' o ho => ⟨o, (lookup_of_lookup_erase ho).2, rfl⟩
  refine ⟨{ heras with }, h.clients key client hlk, fun key' o ho heq => ?_, fun hclos => ?_⟩
  · obtain ⟨hne, ho⟩ := lookup_of_lookup_erase ho
    exact hne (h.distinct key' key o client ho hlk heq)
  · exact (h.closing client.connectionId hclos).2 key client hlk rfl

/-- The event of a connection that is not known any more. -/
theorem Sound.closed (hloose : Loose t c) :
    Sound { t with events := t.events ++ [.connectionClosed c] } := by
  have hop : ∀ o, o ≠ c → IsOpen t.events o → IsOpen (t.events ++ [.connectionClosed c]) o :=
    fun o hne hop => hop.append_of_ne (Ne.symm hne)
  refine ⟨fun _ => h.fresh_append hloose.isOpen, h.bracketed.append (.inr hloose.isOpen.closed),
    fun key client hlk => hop _ (hloose.noClient key client hlk)
      (h.clients key client hlk), h.distinct, fun o hclos => ⟨hop o ?_
        (h.closing o hclos).1, (h.closing o hclos).2⟩, h.closingOnce⟩
  rintro rfl
  exact hloose.notClosing hclos

theorem Sound.leavesClosing (hloose : Loose t c) :
    Sound { t with closing := t.closing ++ [c] } := by
  refine ⟨h.fresh, h.bracketed, h.clients, h.distinct, ?_, ?_⟩
  · exact List.forall_mem_append.mpr ⟨h.closing,
      List.forall_mem_singleton.mpr ⟨hloose.isOpen, hloose.noClient⟩⟩
  · exact List.nodup_append'.mpr ⟨h.closingOnce, List.nodup_singleton _,
      List.disjoint_singleton.mpr hloose.notClosing⟩

theorem Sound.eraseClosing {i : Nat} (hidx : t.closing[i]? = some c) :
    Sound { t with closing := t.closing.eraseIdx i } ∧
      Loose { t with closing := t.closing.eraseIdx i } c := by
  obtain ⟨hop, hnoClient⟩ := h.closing c (List.mem_of_getElem? hidx)
  obtain ⟨hlt, rfl⟩ := List.getElem?_eq_some_iff.mp hidx
  refine ⟨⟨h.fresh, h.bracketed, h.clients, h.distinct, fun o ho =>
    h.closing o (List.eraseIdx_subset ho), h.closingOnce.eraseIdx i⟩, hop,
    hnoClient, fun hmem => ?_⟩
  obtain ⟨p, hpos, hat⟩ := List.mem_eraseIdx_iff_getElem?.mp hmem
  obtain ⟨hlt', hat⟩ := List.getElem?_eq_some_iff.mp hat
  exact hpos ((h.closingOnce.getElem_inj_iff).mp hat)

theorem Sound.insertConnection (key : ClientKey) (i : Bool) (now : Nat) :
    Sound (t.insertConnection key i now) ∧
      (t.insertConnection key i now).clients.lookup key = some ⟨t.nextConnectionId, now, none⟩ := by
  have hnew := isOpen_opened (h.fresh t.nextConnectionId le_rfl)
  have hop : ∀ c, IsOpen t.events c →
      IsOpen (t.events ++ [.connectionOpened t.nextConnectionId]) c ∧ c ≠ t.nextConnectionId := by
    intro c hop
    have hlt := h.lt_of_isOpen hop
    exact ⟨hop.append_of_ne hlt.ne', hlt.ne⟩
  have hold : ∀ key' o, (t.insertConnection key i now).clients.lookup
      key' = some o → (key' = key ∧ o.connectionId = t.nextConnectionId) ∨
        t.clients.lookup key' = some o := by
    intro key' o ho
    dsimp only [ClientTracker.insertConnection] at ho
    by_cases hkey : key' = key
    · subst hkey
      rw [lookup_insert] at ho
      cases ho
      exact .inl ⟨rfl, rfl⟩
    · rw [lookup_insert_ne hkey] at ho
      exact .inr ho
  refine ⟨⟨fun c hle => ?_, h.bracketed.append (.inl hnew), fun key' o ho => ?_,
    fun key₁ key₂ o₁ o₂ ho₁ ho₂ heq => ?_, fun c hclos =>
      ⟨(hop _ (h.closing c hclos).1).1, fun key' o ho => ?_⟩,
    h.closingOnce⟩, lookup_insert _⟩
  · refine (life_append_of_ne ?_).trans (h.fresh c (Nat.le_of_succ_le hle))
    exact (Nat.lt_of_succ_le hle).ne
  · rcases hold key' o ho with ⟨-, heq⟩ | ho
    · rw [heq]
      exact hnew
    · exact (hop _ (h.clients key' o ho)).1
  · rcases hold key₁ o₁ ho₁ with ⟨hkey₁, heq₁⟩ | hold₁ <;>
      rcases hold key₂ o₂ ho₂ with ⟨hkey₂, heq₂⟩ | hold₂
    · rw [hkey₁, hkey₂]
    · exact absurd (heq.symm.trans heq₁) (hop _ (h.clients key₂ o₂ hold₂)).2
    · exact absurd (heq.trans heq₂) (hop _ (h.clients key₁ o₁ hold₁)).2
    · exact h.distinct key₁ key₂ o₁ o₂ hold₁ hold₂ heq
  · rcases hold key' o ho with ⟨-, heq⟩ | ho
    · rw [heq]
      exact (hop _ (h.closing c hclos).1).2.symm
    · exact (h.closing c hclos).2 key' o ho

end

/-! ### Handlers -/

/-- A task closes no connection but its own. -/
def OwnTasks (closes : List (Nat × CloseCause)) : Prop :=
  ∀ connection task, (connection, CloseCause.taskEnded task) ∈ closes → connection = task

structure Tracked (tracker : ClientTracker Message) : Prop where
  sound : Sound tracker
  own : OwnTasks tracker.closes

/-- What a handler leaves behind, wherever it ends. -/
def Leaves (handled : Handled Message) : Prop := Tracked (left handled)

theorem Leaves.bind {handled : Handled Message} {next : ClientTracker Message → Handled Message}
    (h : Leaves handled) (hnext : ∀ t, Tracked t → Leaves (next t)) :
    Leaves (handled.bind next) := by
  cases handled with
  | ok t => exact hnext t h
  | error t => exact h

theorem OwnTasks.append {cs : List (Nat × CloseCause)} {cause : CloseCause} (h : OwnTasks cs)
    (hcause : ∀ task, cause ≠ .taskEnded task) : OwnTasks (cs ++ [(c, cause)]) := by
  intro closed task hmem
  rcases List.mem_append.mp hmem with hold | hnew
  · exact h closed task hold
  · cases List.mem_singleton.mp hnew
    exact absurd rfl (hcause task)

theorem Sound.sendConnectionClosed (h : Sound t) (hloose : Loose t c) (out : SendOutcome) :
    Sound (left (t.sendConnectionClosed c out)) ∧
      (left (t.sendConnectionClosed c out)).closes = t.closes := by
  cases out with
  | sent => exact ⟨h.closed hloose, rfl⟩
  | stopped => exact ⟨h, rfl⟩
  | aborted => exact ⟨h.leavesClosing hloose, rfl⟩

/-- Closing a client records the close, and nothing else about closes. -/
theorem Sound.closeClient (h : Sound t) (key : ClientKey) (cause : CloseCause) (out : SendOutcome) :
    Sound (left (t.closeClient key cause out)) ∧
      (left (t.closeClient key cause out)).closes = t.closes ++
        ((t.clients.lookup key).map fun client => (client.connectionId, cause)).toList := by
  unfold ClientTracker.closeClient
  cases hlk : t.clients.lookup key with
  | none => exact ⟨h, (List.append_nil _).symm⟩
  | some client =>
    obtain ⟨hsound, hloose⟩ := h.disconnect hlk cause
    exact hsound.sendConnectionClosed hloose out

section

variable (h : Tracked t)
include h

theorem closeClient_leaves (key : ClientKey) {cause : CloseCause}
    (hcause : ∀ task, cause ≠ .taskEnded task) (out : SendOutcome) :
    Leaves (t.closeClient key cause out) := by
  obtain ⟨hsound, hclos⟩ := h.sound.closeClient key cause out
  refine ⟨hsound, ?_⟩
  rw [hclos]
  cases t.clients.lookup key with
  | none => exact (List.append_nil _).symm ▸ h.own
  | some client => exact h.own.append hcause

theorem Tracked.recordInboundMessageDelivery (key : ClientKey)
    (si : Option Nat) : Tracked (t.recordInboundMessageDelivery key si) := by
  unfold ClientTracker.recordInboundMessageDelivery
  split
  · rename_i hlk
    exact ⟨h.sound.setClient hlk rfl, h.own⟩
  · exact h

theorem forwardMessage_leaves (hlk : t.clients.lookup key = some client)
    (m : Message) (si : Option Nat) (now : Nat) (out : SendOutcome) :
    Leaves (t.forwardMessage key client m si now out) := by
  have htouc : Sound { t with
      clients := t.clients.insert key { client with lastActivityAt := now } } :=
    h.sound.setClient hlk rfl
  cases out with
  | sent =>
    have hsent := htouc.incoming (lookup_insert _) m
    exact Tracked.recordInboundMessageDelivery ⟨hsent, h.own⟩ key si
  | stopped | aborted => exact ⟨htouc, h.own⟩

theorem openConnection_leaves (key : ClientKey) (m : Message)
    (ilsi : Bool) (si : Option Nat) (now : Nat) (opened i : SendOutcome) :
    Leaves (t.openConnection key m ilsi si now opened i) := by
  cases opened with
  | stopped | aborted =>
    exact ⟨{ h.sound with
      fresh := fun c hle => h.sound.fresh c (Nat.le_of_succ_le hle) }, h.own⟩
  | sent =>
    obtain ⟨hins, hlk⟩ := h.sound.insertConnection key ilsi now
    cases i with
    | sent =>
      have hsent := hins.incoming hlk m
      cases ilsi with
      | true => exact ⟨hsent, h.own⟩
      | false => exact Tracked.recordInboundMessageDelivery ⟨hsent, h.own⟩ key si
    | stopped =>
      obtain ⟨hsound, hloose⟩ := hins.disconnect hlk .initializeFailed
      exact ⟨hsound.leavesClosing hloose, h.own.append nofun⟩
    | aborted => exact ⟨hins, h.own⟩

theorem handleClientMessage_leaves (key : ClientKey) (m : Message) (ii i : Bool)
    (si : Option Nat) (g : Circumstances) : Leaves (t.handleClientMessage key m ii i si g) := by
  unfold ClientTracker.handleClientMessage
  by_cases hdel : (t.isDelivered key si && !ii) = true
  · rw [if_pos hdel]
    exact h
  · rw [if_neg hdel]
    have hcl : Leaves (if ii then
        t.closeClient key .reinitialized g.close else .ok t) := by
      split_ifs
      · exact closeClient_leaves h key (by nofun) g.close
      · exact h
    refine hcl.bind fun next hnext => ?_
    split
    · rename_i hlk
      exact forwardMessage_leaves hnext hlk ..
    · split_ifs
      · exact hnext
      · exact openConnection_leaves hnext ..

/-- Only the remembered streams matter to the stream of an envelope. -/
theorem Tracked.resolveStream (method : Message → Option Text)
    (env : ClientEnvelope Message) (r : StreamId) : Tracked (t.resolveStream method env r).2 := by
  unfold ClientTracker.resolveStream
  split
  · exact h
  · split_ifs
    · exact ⟨{ h.sound with }, h.own⟩
    · split <;> exact h

theorem handleMessage_leaves (method : Message → Option Text)
    (env : ClientEnvelope Message) (g : Circumstances) : Leaves (t.handleMessage method env g) := by
  have hres := h.resolveStream method env g.random
  unfold ClientTracker.handleMessage
  dsimp only
  split_ifs
  · exact hres
  · split
    · exact handleClientMessage_leaves hres ..
    · exact hres
    · exact hres
    · unfold ClientTracker.touch
      split
      · exact hres
      · rename_i hlk
        exact ⟨hres.sound.setClient hlk rfl, hres.own⟩
    · exact closeClient_leaves hres _ (by nofun) _

end

theorem closeClients_leaves {cause : CloseCause} (hcause : ∀ task, cause ≠ .taskEnded task)
    (h : Tracked t) (cs : List (ClientKey × SendOutcome)) : Leaves (closeClients cause t cs) := by
  induction cs generalizing t with
  | nil => exact h
  | cons entry r ih =>
    exact (closeClient_leaves h entry.1 hcause entry.2).bind fun next hnext => ih hnext

theorem Tracked.closeAll (h : Tracked t) (cs : List (ClientKey × SendOutcome)) :
    Tracked (closeAll t cs) := by
  induction cs generalizing t with
  | nil => exact h
  | cons entry r ih => exact ih (closeClient_leaves h entry.1 (by nofun) entry.2)

/-! ### Runs -/

/-- The app server is told of well-bracketed connections, and no task has closed a connection
but its own. -/
structure Proper (tracker : ClientTracker Message) : Prop where
  bracketed : Bracketed tracker.events
  ownTasks : OwnTasks tracker.closes

/-- The connection found under the key of a task that has ended is that of the task. -/
def Current (tracker : ClientTracker Message) : TrackerAction Message → Prop
  | .bookkeep index _ => ∀ task ∈ tracker.joinSet[index]?,
      ∀ client ∈ tracker.clients.lookup task.key, client.connectionId = task.connectionId
  | _ => True

instance (tracker : ClientTracker Message) (action : TrackerAction Message) :
    Decidable (Current tracker action) :=
  match action with
  | .bookkeep _ _ => inferInstanceAs (Decidable (∀ _ ∈ _, ∀ _ ∈ _, _))
  | .envelope _ _ | .taskEnds _ | .panicked _ | .sweep _ _ | .closeSent _ _ | .shutdown _ =>
    .isTrue trivial

variable {t' : ClientTracker Message} {method : Message → Option Text}

theorem step_proper {action : TrackerAction Message} (h : Sound t) (hprop : Proper t)
    (hs : t.step method action = some t') : Sound t' ∧ (Proper t' ↔ Current t action) := by
  have hown := hprop.ownTasks
  -- All steps but one let no task close a connection that is not its own.
  have htrac : Tracked t' → Sound t' ∧ (Proper t' ↔ True) := fun h' =>
    ⟨h'.sound, iff_of_true ⟨h'.sound.bracketed, h'.own⟩ trivial⟩
  cases action with
  | envelope envelope given =>
    cases hs
    exact htrac (handleMessage_leaves ⟨h, hown⟩ method envelope given)
  | taskEnds index =>
    obtain ⟨task, -, rfl⟩ := Option.map_eq_some_iff.mp hs
    exact htrac ⟨{ h with }, hown⟩
  | bookkeep index outcome =>
    simp only [ClientTracker.step, Option.bind_eq_bind, Option.bind_eq_some_iff] at hs
    obtain ⟨task, ht, hs⟩ := hs
    split_ifs at hs
    cases hs
    have hfor : Sound { t with joinSet := t.joinSet.eraseIdx index } :=
      { h with }
    obtain ⟨hsound, hclos⟩ := hfor.closeClient task.key (.taskEnded task.connectionId) outcome
    refine ⟨hsound, ?_⟩
    have hcur : Current t (.bookkeep index outcome) ↔
        ∀ client ∈ t.clients.lookup task.key, client.connectionId = task.connectionId := by
      simp [Current, ht]
    rw [hcur]
    constructor
    · intro hprop client hclient
      refine hprop.ownTasks _ _ ?_
      rw [hclos]
      rw [hclient]
      exact List.mem_append_right _ (List.mem_singleton_self _)
    · intro hsame
      refine ⟨hsound.bracketed, fun c ended hmem => ?_⟩
      rw [hclos] at hmem
      rcases List.mem_append.mp hmem with hold | hnew
      · exact hown c ended hold
      · obtain ⟨client, hclient, heq⟩ := Option.map_eq_some_iff.mp (Option.mem_toList.mp hnew)
        cases heq
        exact hsame client hclient
  | panicked index =>
    cases hs
    exact htrac ⟨{ h with }, hown⟩
  | sweep now expired =>
    dsimp only [ClientTracker.step] at hs
    split_ifs at hs
    cases hs
    exact htrac (closeClients_leaves (by nofun) ⟨h, hown⟩ expired)
  | closeSent index received =>
    obtain ⟨c, hcon, rfl⟩ := Option.map_eq_some_iff.mp hs
    obtain ⟨hrem, hloose⟩ := h.eraseClosing hcon
    cases received with
    | true => exact htrac ⟨hrem.closed hloose, hown⟩
    | false => exact htrac ⟨hrem, hown⟩
  | shutdown clients =>
    dsimp only [ClientTracker.step] at hs
    split_ifs at hs
    cases hs
    have hcl := Tracked.closeAll ⟨h, hown⟩ clients
    exact htrac ⟨{ hcl.sound with }, hcl.own⟩

/-- **Connections are well bracketed, and every task closes only its own connection, exactly
when each report of a task comes before its client has opened another connection.** -/
theorem tracker_proper_iff {nextConnectionId : Nat} {actions : List (TrackerAction Message)}
    {final : ClientTracker Message}
    (hrun : Machine.run (ClientTracker.step method) (.new nextConnectionId) actions = some final) :
    Machine.Throughout (ClientTracker.step method) Proper (.new nextConnectionId) actions ↔
      Machine.Along (ClientTracker.step method) Current (.new nextConnectionId) actions := by
  refine Machine.throughout_iff_along
    (fun _ _ _ hsound hprop hs _ => (step_proper hsound hprop hs).1)
    (fun _ _ _ hsound hprop hs => (step_proper hsound hprop hs).2) actions ?_ ?_ hrun
  · exact ⟨fun _ _ => rfl, fun _ => .inl rfl, nofun, nofun, nofun, .nil⟩
  · exact ⟨fun _ => .inl rfl, nofun⟩

end

/-! A client that initializes on a stream.  Its messages are the names of their methods. -/

def fromPhone (event : ClientEvent Text) : ClientEnvelope Text :=
  ⟨event, "phone".toList, some "stream".toList, none⟩

def allSent : ClientTracker.Circumstances := ⟨0, [], .sent, .sent, .sent⟩

def connects : TrackerAction Text :=
  .envelope (fromPhone (.clientMessage "initialize".toList)) allSent

/-- The client initializes and closes, and its task ends. -/
def closeThenReport : List (TrackerAction Text) :=
  [connects, .envelope (fromPhone .clientClosed) allSent, .taskEnds 0, .bookkeep 0 .sent, connects]

/-- The client initializes a second time before the end of its first task is reported. -/
def connectThenReport : List (TrackerAction Text) :=
  [connects, connects, .taskEnds 0, .bookkeep 0 .sent]

theorem close_then_report_proper :
    ∃ final, Machine.run (ClientTracker.step some) (.new 0) closeThenReport = some final ∧
      Machine.Throughout (ClientTracker.step some) Proper (.new 0) closeThenReport := by
  refine ⟨_, rfl, (tracker_proper_iff rfl).mpr ?_⟩
  decide +kernel

/-- The task of connection 0 closes connection 1. -/
theorem connect_then_report_improper :
    ∃ final, Machine.run (ClientTracker.step some) (.new 0) connectThenReport = some final ∧
      final.closes = [(0, .reinitialized), (1, .taskEnded 0)] ∧ ¬ Proper final := by
  refine ⟨_, rfl, rfl, fun h => ?_⟩
  have hown := h.ownTasks 1 0 (by decide +kernel)
  revert hown
  decide

end SushiGpt.RemoteControl
