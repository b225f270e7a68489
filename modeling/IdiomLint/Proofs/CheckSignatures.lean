import IdiomLint.Loading.Signature

/-! How accepted check functions are called. Whether a function is accepted depends on its
parameters, how it is called on the number of its declarations, the result among them. The two
agree unless a function asks for the settings and does not declare its result. -/
namespace IdiomLint.Signature

variable {s : Signature}

theorem strangeService?_eq_none_iff {services : List (String × ParamType)} :
    strangeService? services = none ↔ ∀ p ∈ services, p = settingsParam := by
  simp [strangeService?]

/-- Everything that acceptance says about the parameters. -/
theorem params_of_accepts (accepted : s.accepts) :
    ∃ node findings services, s.params = node :: findings :: services ∧ node.2 ≠ .missing
      ∧ findings.2 = findingsType ∧ (services = [] ∨ services = [settingsParam]) := by
  unfold accepts nodeClasses at accepted
  split at accepted
  case h_2 => cases accepted
  case h_1 first node second findings services params =>
    split at accepted
    case isTrue => cases accepted
    case isFalse few =>
      split at accepted
      case isTrue => cases accepted
      case isFalse same =>
        have known : strangeService? services = none := by
          cases strange : strangeService? services with
          | none => rfl
          | some e => simp [strange] at accepted
        have typed : node ≠ .missing := by
          rintro rfl
          simp [known, ParamType.simplified] at accepted
        refine ⟨(first, node), (second, findings), services, params, typed, by simpa using same, ?_⟩
        match services, few, strangeService?_eq_none_iff.1 known with
        | [], _, _ => exact .inl rfl
        | [p], _, only => exact .inr (by rw [only p List.mem_cons_self])
        | _ :: _ :: _, few, _ => simp at few

theorem length_of_accepts (accepted : s.accepts) : s.params.length = 2 ∨ s.params.length = 3 := by
  obtain ⟨node, findings, services, params, -, -, rfl | rfl⟩ := params_of_accepts accepted
  · exact .inl (by rw [params]; rfl)
  · exact .inr (by rw [params]; rfl)

/-- All parameters of an accepted function are declared, so that only the result can be missing
from the count. -/
theorem typedCount_of_accepts (accepted : s.accepts) :
    s.typedCount = s.params.length + if s.returns then 1 else 0 := by
  obtain ⟨node, findings, services, params, typed, list, only⟩ := params_of_accepts accepted
  have declared : ∀ p ∈ s.params, (p.2 != .missing) = true := by
    rw [params]
    rcases only with rfl | rfl <;> simp [typed, list, findingsType, settingsParam]
  unfold typedCount
  rw [List.filter_eq_self.2 declared]

/-- An accepted check function gets exactly its arguments, the settings if and only if it has a
third parameter, unless it has that parameter and does not declare its result. -/
theorem called_as_declared_iff (accepted : s.accepts) :
    (s.argumentCount = s.params.length ∧ (s.passesSettings = true ↔ s.params.length = 3))
      ↔ (s.params.length = 3 → s.returns = true) := by
  have count := typedCount_of_accepts accepted
  unfold argumentCount passesSettings
  rcases length_of_accepts accepted with two | three
  · -- with a result two parameters are three declarations, which is one too few
    cases returns : s.returns <;> simp [count, two, returns]
  · cases returns : s.returns <;> simp [count, three, returns]

/-- A check function of two classes of nodes that wants the settings and declares its result. -/
theorem called_as_declared_iff_settings :
    let s : Signature := ⟨[("node", .union ["CallExpr", "NameExpr"]), ("errors", findingsType),
      settingsParam], true⟩
    s.accepts = true ∧ s.argumentCount = s.params.length ∧ s.passesSettings = true := by
  intro s
  have accepted : s.accepts = true := by decide +kernel
  have called := (called_as_declared_iff accepted).2 fun _ => rfl
  exact ⟨accepted, called.1, called.2.2 rfl⟩

/-- Without a declared result the settings are not passed, although the function is accepted with
a parameter for them. -/
theorem settings_withheld :
    let s : Signature := ⟨[("node", .named "CallExpr"), ("errors", findingsType), settingsParam],
      false⟩
    s.accepts = true ∧ s.params.length = 3 ∧ s.argumentCount = 2 ∧ s.passesSettings = false := by
  decide +kernel

end IdiomLint.Signature
