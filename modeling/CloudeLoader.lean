import CloudeLoader.Arena.Atomicity
import CloudeLoader.Cdp.Completion
import CloudeLoader.Cdp.Pipe
import CloudeLoader.Cdp.Registrations
import CloudeLoader.Cdp.Shutdown
import CloudeLoader.Config.EnabledPlugins
import CloudeLoader.Config.Limits
import CloudeLoader.Config.Locks
import CloudeLoader.Config.Mirrors
import CloudeLoader.Config.Persistence
import CloudeLoader.Config.Saving
import CloudeLoader.Engine.Attachments
import CloudeLoader.Engine.BackendCalls
import CloudeLoader.Engine.FrontendCalls
import CloudeLoader.Engine.Interleaving
import CloudeLoader.Engine.Lifecycle
import CloudeLoader.Engine.NestedCalls
import CloudeLoader.Engine.Readiness
import CloudeLoader.Engine.ReadyCallbacks
import CloudeLoader.Engine.ThemeUrls
import CloudeLoader.Ffi.BlockList
import CloudeLoader.Ffi.Contexts
import CloudeLoader.Ffi.Subscriptions
import CloudeLoader.Ipc.Reader
import CloudeLoader.Loopback.Conflicts
import CloudeLoader.Loopback.HtmlFilter
import CloudeLoader.Loopback.Isolation
import CloudeLoader.Loopback.Serving
import CloudeLoader.LuaHost.ConfigCallbacks
import CloudeLoader.LuaHost.Coroutines
import CloudeLoader.LuaHost.Notifications
import CloudeLoader.LuaHost.Strings
import CloudeLoader.Mep.Attribution
import CloudeLoader.Mep.CrashBus
import CloudeLoader.Mep.Frames
import CloudeLoader.Mep.Rings
import CloudeLoader.Sdk.HookStubs
import CloudeLoader.Sdk.Patcher
import CloudeLoader.Theme.Colors
import CloudeLoader.Theme.Completion
import CloudeLoader.Util.Base64
import CloudeLoader.Util.CommandLine
