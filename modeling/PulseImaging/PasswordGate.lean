import PulseImaging.RunMenu

/-! The password in front of the menu: what a refusal leaves behind, and when
that keeps the menu hidden. -/

namespace PulseImaging

section

variable {c d : MenuConfig} {line : List Byte} {lines : List (List Byte)} {prompts : List Prompt}

end

/-! ### The machine -/

section

variable {s t : MenuState} {e : MenuEvent} {m : Menu}

end

end PulseImaging
