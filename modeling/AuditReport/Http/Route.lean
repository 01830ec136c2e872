import AuditReport.Service

/-! Which request asks for what. Routes are tried in order, so the lists of all providers come
before those of one provider. -/

namespace AuditReport.Http

/-- What a path and a method ask for. -/
inductive Endpoint where
  | page
  | file
  /-- An operation that takes nothing from the request. -/
  | operation (o : Operation)
  /-- An operation for the provider that the path names. -/
  | ofProvider (provider : String) (operation : String → Operation)
  | logPage
  /-- The log entry with the number that the path names. -/
  | logEntry (id : String)
  /-- A page of documentation. -/
  | documentation

/-- The paths of a route. -/
inductive Pattern where
  | exactly (path : String)
  /-- A path segment between two texts that is not empty. -/
  | around (before after : String)
  deriving DecidableEq, Repr

namespace Pattern

/-- What a whole path has in the place that the pattern leaves open; nothing there for an exact
path. -/
def matchWhole? : Pattern → String → Option String
  | exactly p, path => if p = path then some "" else none
  | around before after, path =>
    let cs := path.toList
    let b := before.toList
    let a := after.toList
    if b.isPrefixOf cs && a.isSuffixOf (cs.drop b.length) then
      let open_ := (cs.drop b.length).take (cs.length - b.length - a.length)
      if open_.isEmpty || open_.contains '/' then none else some (String.ofList open_)
    else none

/-- The path without a line end behind it. -/
def withoutLineEnd (path : String) : String :=
  let cs := path.toList
  if cs.getLast? = some '\n' then String.ofList cs.dropLast else path

/-- What a path has in the place that the pattern leaves open. A line end behind the path is passed
over where the pattern does not take it. -/
def match? (p : Pattern) (path : String) : Option String :=
  (p.matchWhole? path).or (p.matchWhole? (withoutLineEnd path))

end Pattern

/-- A pattern of paths, the methods that it takes, and what is asked for by them. -/
structure Route where
  methods : List String
  pattern : Pattern
  endpoint : String → Endpoint

/-- Where the report is found. -/
def reportPath : String := "/api/global-report"

/-- Where the log is found. -/
def logPath : String := "/api/logs"

/-- A route to an operation that takes nothing from the request. -/
def operationRoute (method name : String) (o : Operation) : Route :=
  ⟨[method], .exactly (reportPath ++ "/" ++ name), fun _ => .operation o⟩

/-- A route to an operation for one provider. -/
def providerRoute (suffix : String) (o : String → Operation) : Route :=
  ⟨["GET"], .around (reportPath ++ "/") ("-" ++ suffix), fun p => .ofProvider p o⟩

/-- A route to a page of documentation. -/
def documentationRoute (path : String) : Route :=
  ⟨["GET", "HEAD"], .exactly path, fun _ => .documentation⟩

/-- All routes in the order in which they are tried. -/
def routes : List Route :=
  ["/api/openapi.json", "/api/docs", "/docs/oauth2-redirect", "/api/redoc"].map documentationRoute ++
  [⟨["POST"], .exactly reportPath, fun _ => .page⟩,
    ⟨["POST"], .exactly (reportPath ++ "/"), fun _ => .page⟩,
    ⟨["POST"], .exactly (reportPath ++ "/export"), fun _ => .file⟩,
    operationRoute "GET" "columns" .columns,
    operationRoute "GET" "ota-ids" (.pairs .id),
    operationRoute "GET" "ota-usernames" (.pairs .username),
    operationRoute "GET" "ota-passwords" .passwords,
    operationRoute "GET" "portfolio-contact-emails" .contactEmails,
    operationRoute "GET" "portfolios" .portfolios,
    operationRoute "GET" "properties" .properties,
    providerRoute "ids" fun p => .providerValues p .id,
    providerRoute "usernames" fun p => .providerValues p .username,
    providerRoute "passwords" .providerPasswords,
    operationRoute "DELETE" "cache" .clearCache,
    ⟨["GET"], .exactly (logPath ++ "/"), fun _ => .logPage⟩,
    ⟨["GET"], .around (logPath ++ "/") "", .logEntry⟩]

/-- What a method and a path lead to. -/
inductive Destination where
  | endpoint (e : Endpoint)
  /-- The path is taken, but by other methods. -/
  | otherMethods (methods : List String)
  /-- The path is taken with, or without, slashes at its end. -/
  | elsewhere (path : String)
  | nowhere

/-- Some route takes the path. -/
def isTaken (path : String) : Bool := routes.any fun r => (r.pattern.match? path).isSome

/-- The path without its slashes at the end, or with one if it has none. -/
def toggleSlash (path : String) : String :=
  let cs := path.toList
  if cs.getLast? = some '/' then String.ofList (cs.reverse.dropWhile (· == '/')).reverse
  else path ++ "/"

/-- Where a request goes. -/
def destination (method path : String) : Destination :=
  let taking := routes.filterMap fun r => (r.pattern.match? path).map fun value => (r, value)
  match taking.find? fun (r, _) => r.methods.contains method, taking with
  | some (r, value), _ => .endpoint (r.endpoint value)
  | none, (r, _) :: _ => .otherMethods r.methods
  | none, [] =>
    if path != "/" && isTaken (toggleSlash path) then .elsewhere (toggleSlash path) else .nowhere

end AuditReport.Http
