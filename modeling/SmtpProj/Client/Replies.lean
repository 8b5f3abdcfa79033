import SmtpProj.Client.Frame

/-!
Whether a reply can stop a client process.

`check_server_code` makes one of three events of a reply. Two of them have a
transition in every state. The third, for a server that does not implement the
command, was declared with the automaton and given no transition at all, so the
step that takes it calls `exit`, and every session of the process ends with it.
Two things stand before that step: a finished automaton starts again whatever
the event is, and behind a body another letter of the queue replaces the event.
-/

namespace SmtpProj.Client

open Lib

/-! ### The event of a reply -/

/-- The replies for which `check_server_code` has an event of its own. -/
def NotImplemented (reply : CStr) : Prop :=
  replyCode reply = 502 ∧ (strstr "not implemented".toList reply).isSome

instance : DecidablePred NotImplemented := fun _ => inferInstanceAs (Decidable (_ ∧ _))

theorem checkServerCode_eq_commandNotImplemented {reply : CStr} :
    checkServerCode reply = .commandNotImplemented ↔ NotImplemented reply := by
  simp only [checkServerCode, NotImplemented]
  split_ifs with hrange htext
  · exact ⟨fun _ => htext, fun _ => rfl⟩
  · exact iff_of_false (by simp) htext
  · refine iff_of_false (by simp) fun h => absurd ?_ hrange
    omega

theorem checkServerCode_eq_ok {reply : CStr} :
    checkServerCode reply = .ok ↔
      (200 ≤ replyCode reply ∧ replyCode reply ≤ 300) ∨ replyCode reply = 354 := by
  simp only [checkServerCode]
  split_ifs with hrange htext
  · refine iff_of_false (by simp) ?_
    omega
  · refine iff_of_false (by simp) ?_
    omega
  · refine iff_of_true rfl ?_
    omega

theorem clientFsmStep_ok (st : ClientState) : ∃ st', clientFsmStep st .ok = .ok st' := by
  cases st <;> exact ⟨_, rfl⟩

theorem clientFsmStep_error (st : ClientState) : ∃ st', clientFsmStep st .error = .ok st' := by
  cases st <;> exact ⟨_, rfl⟩

/-- No state that is left through the table has a transition for the event. -/
theorem clientFsmStep_commandNotImplemented (st : ClientState) :
    clientFsmStep st .commandNotImplemented = .error .badTransition ↔
      st ≠ .done ∧ st ≠ .invalid := by
  cases st <;> simp [clientFsmStep, clientFsmTransTable]

/-! ### One descriptor -/

namespace Dscrptr

variable {d : Dscrptr} {event : ClientEvent}

/-- Nothing takes the place of the event: the automaton is not finished, and
behind a body that is removed no other letter waits. -/
def Exposed (d : Dscrptr) : Prop :=
  d.state ≠ .done ∧ d.state ≠ .invalid ∧
    (d.state = .sendBody → d.mailsList.length ≤ 2 ∧ d.mailsList.head? ≠ some none)

theorem advance_of_ne_sendBody (hst : d.state ≠ .sendBody) :
    d.advance event = .error .badTransition ↔
      clientFsmStep d.state event = .error .badTransition := by
  simp only [advance, hst, false_and, if_false]
  cases clientFsmStep d.state event <;> simp [bind, Except.bind]

/-- Behind a body only the queue decides. -/
theorem advance_of_sendBody (hst : d.state = .sendBody) :
    d.advance .commandNotImplemented = .error .badTransition ↔
      d.mailsList.length ≤ 2 ∧ d.mailsList.head? ≠ some none := by
  simp only [advance, hst, ne_eq, reduceCtorEq, not_false_eq_true, and_self, if_true]
  cases hmails : d.mailsList with
  | nil => simp [removeFirst, count, clientFsmStep, clientFsmTransTable, bind, Except.bind]
  | cons head mails =>
      cases head with
      | none => simp [removeFirst, bind, Except.bind]
      | some path =>
          have hlen : count mails > 0 ↔ 1 < mails.length := by
            unfold count
            omega
          by_cases hcount : count mails > 0
          · simp [removeFirst, hcount, clientFsmStep, clientFsmTransTable, bind, Except.bind,
              hlen.mp hcount]
          · have hshort : mails.length ≤ 1 := not_lt.mp (mt hlen.mpr hcount)
            simp [removeFirst, hcount, clientFsmStep, clientFsmTransTable, bind, Except.bind,
              hshort]

theorem advance_ne_badTransition (hevent : event = .ok ∨ event = .error) :
    d.advance event ≠ .error .badTransition := by
  intro h
  by_cases hst : d.state = .sendBody
  · rcases hevent with rfl | rfl
    · simp only [advance, hst, ne_eq, reduceCtorEq, not_false_eq_true, and_self, if_true] at h
      cases hmails : d.mailsList with
      | nil => simp [hmails, removeFirst, count, clientFsmStep, clientFsmTransTable, bind,
          Except.bind] at h
      | cons head mails =>
          cases head with
          | none => simp [hmails, removeFirst, bind, Except.bind] at h
          | some path =>
              simp only [hmails, removeFirst, bind, Except.bind] at h
              split_ifs at h <;> cases h
    · simp [advance, hst, clientFsmStep, clientFsmTransTable, bind, Except.bind] at h
  · rw [advance_of_ne_sendBody hst] at h
    rcases hevent with rfl | rfl
    · obtain ⟨st', hok⟩ := clientFsmStep_ok d.state
      rw [hok] at h
      cases h
    · obtain ⟨st', hok⟩ := clientFsmStep_error d.state
      rw [hok] at h
      cases h

theorem advance_badTransition_iff (reply : CStr) :
    d.advance (checkServerCode reply) = .error .badTransition ↔
      NotImplemented reply ∧ d.Exposed := by
  rw [← checkServerCode_eq_commandNotImplemented]
  rcases Child.checkServerCode_cases reply with hevent | hevent | hevent
  · rw [hevent]
    exact iff_of_false (advance_ne_badTransition (.inl rfl)) (by simp)
  · rw [hevent]
    exact iff_of_false (advance_ne_badTransition (.inr rfl)) (by simp)
  · rw [hevent]
    by_cases hst : d.state = .sendBody
    · rw [advance_of_sendBody hst]
      simp [Exposed, hst]
    · rw [advance_of_ne_sendBody hst, clientFsmStep_commandNotImplemented]
      simp [Exposed, hst]

end Dscrptr

/-! ### Runs -/

namespace Child

/-- The call does not ask the automaton for a step it does not have. -/
def NoInvalidPair (c : Child) : Op → Prop
  | .read j results => c.handleReadSocket results j ≠ .error .badTransition
  | .register _ _ | .write _ _ | .select _ _ _ => True

instance (c : Child) : DecidablePred c.NoInvalidPair
  | .read j results =>
      decidable_of_iff ((c.handleReadSocket results j).map (fun _ => ()) ≠ .error .badTransition) <|
        by cases h : c.handleReadSocket results j <;> simp [NoInvalidPair, Except.map, h]
  | .register _ _ | .write _ _ | .select _ _ _ => isTrue trivial

/-- The reply that is read is not a refusal to implement the command, or
something takes its place. -/
def Implemented (c : Child) : Op → Prop
  | .read j results => ∀ reply, c.receive results (c.dscrptrs j) = some reply →
      NotImplemented reply → ¬ (c.dscrptrs j).Exposed
  | .register _ _ | .write _ _ | .select _ _ _ => True

variable {c : Child}

theorem handleReadSocket_badTransition_iff {results : List RecvResult} {j : ℕ} :
    c.handleReadSocket results j = .error .badTransition ↔
      ∃ reply, c.receive results (c.dscrptrs j) = some reply ∧ NotImplemented reply ∧
        (c.dscrptrs j).Exposed := by
  unfold handleReadSocket
  cases hreply : c.receive results (c.dscrptrs j) with
  | none => simp
  | some reply =>
      simp only [Option.some.injEq, exists_eq_left']
      rw [← Dscrptr.advance_badTransition_iff]
      cases (c.dscrptrs j).advance (checkServerCode reply) <;> simp [bind, Except.bind]

theorem noInvalidPair_iff (op : Op) : c.NoInvalidPair op ↔ c.Implemented op := by
  cases op with
  | read j results =>
      simp only [NoInvalidPair, Implemented, ne_eq, handleReadSocket_badTransition_iff, not_exists,
        not_and]
  | register | write | select => exact Iff.rfl

/-- The replies of a run never stop the process exactly if none of them refuses
a command where nothing takes the refusal's place. -/
theorem replies_survived_iff (conf : Conf) (files : CStr → Option (List Char))
    (memory : ℕ → Dscrptr) (ops : List Op) :
    Along step NoInvalidPair (bootChild conf files memory) ops ↔
      Along step Implemented (bootChild conf files memory) ops :=
  along_congr (fun _ _ _ _ _ => trivial) (fun _ op _ (_ : True) => noInvalidPair_iff op) trivial

def refusedHelo : List Op :=
  [.register (sampleLetter "a.b") (some 5), .read 0 (sampleReply "220"), .write 0 sampleWrites,
    .read 0 [.bytes "502 Command not implemented\r\n".toList]]

theorem refusal_stops_process :
    (run step sampleChild refusedHelo).map (fun _ => ()) = .error .badTransition ∧
      ¬ Along step NoInvalidPair sampleChild refusedHelo := by
  decide +kernel

end Child

end SmtpProj.Client
