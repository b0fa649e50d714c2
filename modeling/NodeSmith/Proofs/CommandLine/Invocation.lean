import NodeSmith.CommandLine.Invocation

set_option autoImplicit false

namespace NodeSmith.Invocation

variable {invocation : Invocation} {progress : Progress}

end NodeSmith.Invocation
