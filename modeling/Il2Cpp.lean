import Il2Cpp.Baselib.CappedSemaphore
import Il2Cpp.Baselib.FutexLock
import Il2Cpp.Baselib.ReentrantLock
import Il2Cpp.Class.ArrayMethods
import Il2Cpp.Class.CyclicLayout
import Il2Cpp.Class.GCBitmap
import Il2Cpp.Class.GenericParam
import Il2Cpp.Class.InterfaceMap
import Il2Cpp.Class.LazyMethods
import Il2Cpp.Class.NullHierarchy
import Il2Cpp.ClassInit.Deadlock
import Il2Cpp.Codegen.Conv
import Il2Cpp.Codegen.Overflow
import Il2Cpp.Compression.Delivery
import Il2Cpp.CustomAttribute.CompressedInteger
import Il2Cpp.CustomAttribute.FilteredIteration
import Il2Cpp.Expansion.Finiteness
import Il2Cpp.File.Find
import Il2Cpp.File.MemoryFiles
import Il2Cpp.File.OpenMapping
import Il2Cpp.File.Replace
import Il2Cpp.GC.Ephemerons
import Il2Cpp.GC.HandleSearch
import Il2Cpp.GC.PendingFinalizers
import Il2Cpp.GC.StrongWalk
import Il2Cpp.GC.WeakrefError
import Il2Cpp.Image.Lookup
import Il2Cpp.Interop.CCWCache
import Il2Cpp.Interop.Dispatch
import Il2Cpp.Interop.RCW
import Il2Cpp.Liveness.Agree
import Il2Cpp.Liveness.BlockArray
import Il2Cpp.Marshal.FixedString
import Il2Cpp.Marshal.StringBuilder
import Il2Cpp.Metadata.DepthLimit
import Il2Cpp.Metadata.GenericMethodCache
import Il2Cpp.Metadata.LazyRGCTX
import Il2Cpp.Metadata.Sharing
import Il2Cpp.Monitor.Abort
import Il2Cpp.Monitor.TryWait
import Il2Cpp.Monitor.Wakeup
import Il2Cpp.Object.ArrayIndex
import Il2Cpp.Object.FastCopy
import Il2Cpp.Object.SetValue
import Il2Cpp.Socket.Address
import Il2Cpp.Socket.HandleTable
import Il2Cpp.Socket.SendFile
import Il2Cpp.String.Intern
import Il2Cpp.ThreadPool.HeuristicAdjust
import Il2Cpp.ThreadPool.MonitorThread
import Il2Cpp.ThreadPool.PollSet
import Il2Cpp.ThreadPool.RoundRobin
import Il2Cpp.ThreadPool.SelectorJobs
import Il2Cpp.ThreadPool.WorkerLimits
import Il2Cpp.ThreadStatic.Storage
import Il2Cpp.TimeZone.GetTimeZoneData
import Il2Cpp.TypeName.ChunkBuffer
import Il2Cpp.TypeName.CursorSafety
import Il2Cpp.TypeName.ParsedModifiers
import Il2Cpp.TypeName.PropertySoundness
import Il2Cpp.TypeName.RoundTrip
import Il2Cpp.Utils.DynamicArray
import Il2Cpp.Utils.MathUtils
import Il2Cpp.Utils.MemoryPool
import Il2Cpp.Utils.NativeSymbol
import Il2Cpp.WaitObject.TimedWait
import Il2Cpp.WaitObject.UserAPC
import Il2Cpp.WaitObject.Wakeup
import Il2Cpp.WindowsRuntime.Bounds
import Il2Cpp.WindowsRuntime.RoundTrip
