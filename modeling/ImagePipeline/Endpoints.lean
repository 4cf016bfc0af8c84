import ImagePipeline.Text.Pieces

/-!
# Endpoints of the services

Where the registry, the source host and the scheduler are reached. A configuration document may
replace any of the texts.
-/

namespace ImagePipeline

/-- The addresses and names of the services. -/
structure Endpoints where
  /-- Where the registry's tokens come from. -/
  registryAuthUrl : String := "https://auth.docker.io/token"
  /-- The registry. -/
  registryUrl : String := "https://registry-1.docker.io"
  /-- The name of the registry in requests for tokens. -/
  registryService : String := "registry.docker.io"
  /-- The source host. -/
  githubApiUrl : String := "https://api.github.com"
  /-- The scheduler. -/
  jenkinsUrl : String := "http://localhost:8080/jenkins"
  /-- The user of the scheduler. -/
  jenkinsUser : String := "jenkins"
  /-- The toolchain's repository, owner and name. -/
  toolchainRepo : String := "llvm/llvm-project"
deriving DecidableEq, Repr, Inhabited

namespace Endpoints

/-- The address of the toolchain's repository at the source host. -/
def toolchainRepoApi (e : Endpoints) : String :=
  Text.stripEnd '/' e.githubApiUrl ++ "/repos/" ++ e.toolchainRepo

end Endpoints

end ImagePipeline
